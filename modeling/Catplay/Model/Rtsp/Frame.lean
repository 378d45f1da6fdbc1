import Catplay.Library.Text
import Mathlib.Data.Nat.Digits.Defs

/-!
# RTSP frames

Requests and responses of `carplay/catplay_carplay/src/rtsp_frame`, with the names they use.
-/

set_option autoImplicit false

/-!
## Methods and header names

`rtsp_method.rs` and `http_header.rs` of `carplay/catplay_carplay/src/rtsp_frame`: each name is
read by one table and written by another. Text is a list of scalar values.
-/

namespace Catplay.Model.Rtsp

/-- `RtspString`, whatever holds its bytes. -/
abbrev RtspString := List Char

/-! ### Methods -/

inductive RtspMethod
  | announce | setup | record | pause | flush | flushBuffered | teardown | options | getParameter
  | setParameter | setRateAnchorTime | setPeers | unknown | get | post | put | delete
  deriving DecidableEq, Repr

namespace RtspMethod

/-- `as_ref`. -/
def asStr : RtspMethod → RtspString
  | .setup => "SETUP".toList
  | .record => "RECORD".toList
  | .flush => "FLUSH".toList
  | .flushBuffered => "FLUSHBUFFERED".toList
  | .teardown => "TEARDOWN".toList
  | .options => "OPTIONS".toList
  | .getParameter => "GET_PARAMETER".toList
  | .setParameter => "SET_PARAMETER".toList
  | .setRateAnchorTime => "SETRATEANCHORTIME".toList
  | .setPeers => "SETPEERS".toList
  | .unknown => "UNKNOWN".toList
  | .get => "GET".toList
  | .post => "POST".toList
  | .announce => "ANNOUNCE".toList
  | .pause => "PAUSE".toList
  | .put => "PUT".toList
  | .delete => "DELETE".toList

/-- The arms of `from_str`. -/
def names : List (String × RtspMethod) :=
  [("SETUP", .setup),
   ("RECORD", .record),
   ("FLUSH", .flush),
   ("FLUSHBUFFERED", .flushBuffered),
   ("TEARDOWN", .teardown),
   ("OPTIONS", .options),
   ("GET_PARAMETER", .getParameter),
   ("SET_PARAMETER", .setParameter),
   ("SETRATEANCHORTIME", .setRateAnchorTime),
   ("SETPEERS", .setPeers),
   ("UNKNOWN", .unknown),
   ("GET", .get),
   ("POST", .post),
   ("ANNOUNCE", .announce),
   ("PAUSE", .pause),
   ("PUT", .put),
   ("DELETE", .delete)]

def fromStr (s : RtspString) : Option RtspMethod :=
  (names.find? (·.1.toList = s)).map (·.2)

end RtspMethod

/-! ### Header names -/

inductive HttpHeader
  | accept | acceptLanguage | acceptRanges | authorization | connection | contentLength
  | contentRange | contentType | cseq | date | host | lastModified | location | public_ | range
  | rtpInfo | session | server | transferEncoding | transport | upgrade | userAgent
  | wwwAuthenticate | airPlayReceiverDeviceID | homeKitPairing | encryptionType | pairDerive
  | other (name : RtspString)
  deriving DecidableEq, Repr

namespace HttpHeader

def asStr : HttpHeader → RtspString
  | .accept => "Accept".toList
  | .acceptLanguage => "Accept-Language".toList
  | .acceptRanges => "Accept-Ranges".toList
  | .authorization => "Authorization".toList
  | .connection => "Connection".toList
  | .contentLength => "Content-Length".toList
  | .contentRange => "Content-Range".toList
  | .contentType => "Content-Type".toList
  | .cseq => "CSeq".toList
  | .date => "Date".toList
  | .host => "Host".toList
  | .lastModified => "Last-Modified".toList
  | .location => "Location".toList
  | .public_ => "Public".toList
  | .range => "Range".toList
  | .rtpInfo => "RTP-Info".toList
  | .session => "Session".toList
  | .server => "Server".toList
  | .transferEncoding => "Transfer-Encoding".toList
  | .transport => "Transport".toList
  | .upgrade => "Upgrade".toList
  | .userAgent => "User-Agent".toList
  | .wwwAuthenticate => "WWW-Authenticate".toList
  | .airPlayReceiverDeviceID => "AirPlay-Receiver-Device-ID".toList
  | .homeKitPairing => "X-Apple-HKP".toList
  | .encryptionType => "X-Apple-ET".toList
  | .pairDerive => "X-Apple-PD".toList
  | .other name => name

/-- The arms of `from_str`. -/
def names : List (String × HttpHeader) :=
  [("Accept", .accept),
   ("Accept-Language", .acceptLanguage),
   ("Accept-Ranges", .acceptRanges),
   ("Authorization", .authorization),
   ("Connection", .connection),
   ("Content-Length", .contentLength),
   ("Content-Range", .contentRange),
   ("Content-Type", .contentType),
   ("CSeq", .cseq),
   ("Date", .date),
   ("Host", .host),
   ("Last-Modified", .lastModified),
   ("Location", .location),
   ("Public", .public_),
   ("Range", .range),
   ("RTP-Info", .rtpInfo),
   ("Session", .session),
   ("Server", .server),
   ("Transfer-Encoding", .transferEncoding),
   ("Transport", .transport),
   ("Upgrade", .upgrade),
   ("User-Agent", .userAgent),
   ("WWW-Authenticate", .wwwAuthenticate),
   ("AirPlay-Receiver-Device-ID", .airPlayReceiverDeviceID),
   ("X-Apple-HKP", .encryptionType),
   ("X-Apple-ET", .encryptionType),
   ("X-Apple-PD", .pairDerive)]

/-- `from_str`, which has no error. -/
def fromStr (s : RtspString) : HttpHeader :=
  match names.find? (·.1.toList = s) with
  | some (_, header) => header
  | none => .other s

end HttpHeader

end Catplay.Model.Rtsp

/-!
## Status codes

`carplay/catplay_carplay/src/rtsp_frame/http_status.rs`.
-/

namespace Catplay.Model.Rtsp

inductive HttpStatus
  | continue_ | switchingProtocols | processing | checkpoint | ok | created | accepted
  | nonAuthoritativeInformation | noContent | resetContent | partialContent | multiStatus
  | alreadyReported | contentDifferent | imUsed | lowOnStorageSpace | multipleChoices
  | movedPermanently | found | seeOther | notModified | useProxy | switchProxy
  | temporaryRedirect | permanentRedirect | movedLocation | goingAway | loadBalancing
  | badRequest | unauthorized | paymentRequired | forbidden | notFound | methodNotAllowed
  | notAcceptable | proxyAuthRequired | requestTimeout | conflict | gone | lengthRequired
  | preconditionFailed | requestEntityTooLarge | requestURITooLong | unsupportedMediaType
  | requestedRangeNotSatisfiable | expectationFailed | imATeapot | authTimeout | enhanceYourCalm
  | notAuthoritative | unprocessableEntity | expectationFailedAlt | failedDependency
  | unorderedCollection | upgradeRequired | preconditionRequired | tooManyRequests
  | headerFieldsTooLarge | loginTimeout | noResponse | retryWith | blockedByParentalControls
  | paramNotUnderstood | conferenceNotFound | notEnoughBandwidth | sessionNotFound
  | methodNotValid | headerFieldNotValid | invalidRange | paramReadOnly | aggregateOpNotAllowed
  | onlyAggregateOpAllowed | unsupportedTransport | destinationUnreachable
  | destinationProhibited | transportNotReady | unknownNotificationReason | keyManagementError
  | connectionAuthRequired | connectionCredentialsRejected | secureConnectionFailure
  | invalidCollblob | clientClosedRequest | internalServerError | notImplemented | badGateway
  | serviceUnavailable | gatewayTimeout | versionNotSupported | variantAlsoNegotiates
  | insufficientStorage | loopDetected | bandwidthLimitExceeded | notExtended
  | networkAuthRequired | originError | connectionTimedOut | proxyDeclinedRequest
  | timeoutOccurred | optionNotSupported | proxyUnavailable | networkReadTimeout
  | networkConnectTimeout
  | unknown (code : UInt16)
  deriving DecidableEq, Repr

namespace HttpStatus

/-- The arms of `from_code`. -/
def codes : List (UInt16 × HttpStatus) :=
  [(100, .continue_), (101, .switchingProtocols), (102, .processing), (103, .checkpoint),
   (200, .ok), (201, .created), (202, .accepted), (203, .nonAuthoritativeInformation),
   (204, .noContent), (205, .resetContent), (206, .partialContent), (207, .multiStatus),
   (208, .alreadyReported), (210, .contentDifferent), (226, .imUsed), (250, .lowOnStorageSpace),
   (300, .multipleChoices), (301, .movedPermanently), (302, .found), (303, .seeOther),
   (304, .notModified), (305, .useProxy), (306, .switchProxy), (307, .temporaryRedirect),
   (308, .permanentRedirect), (330, .movedLocation), (350, .goingAway), (351, .loadBalancing),
   (400, .badRequest), (401, .unauthorized), (402, .paymentRequired), (403, .forbidden),
   (404, .notFound), (405, .methodNotAllowed), (406, .notAcceptable), (407, .proxyAuthRequired),
   (408, .requestTimeout), (409, .conflict), (410, .gone), (411, .lengthRequired),
   (412, .preconditionFailed), (413, .requestEntityTooLarge), (414, .requestURITooLong),
   (415, .unsupportedMediaType), (416, .requestedRangeNotSatisfiable), (417, .expectationFailed),
   (418, .imATeapot), (419, .authTimeout), (420, .enhanceYourCalm), (421, .notAuthoritative),
   (422, .unprocessableEntity), (423, .expectationFailedAlt), (424, .failedDependency),
   (425, .unorderedCollection), (426, .upgradeRequired), (428, .preconditionRequired),
   (429, .tooManyRequests), (431, .headerFieldsTooLarge), (440, .loginTimeout),
   (444, .noResponse), (449, .retryWith), (450, .blockedByParentalControls),
   (451, .paramNotUnderstood), (452, .conferenceNotFound), (453, .notEnoughBandwidth),
   (454, .sessionNotFound), (455, .methodNotValid), (456, .headerFieldNotValid),
   (457, .invalidRange), (458, .paramReadOnly), (459, .aggregateOpNotAllowed),
   (460, .onlyAggregateOpAllowed), (461, .unsupportedTransport), (462, .destinationUnreachable),
   (463, .destinationProhibited), (464, .transportNotReady), (465, .unknownNotificationReason),
   (466, .keyManagementError), (470, .connectionAuthRequired),
   (471, .connectionCredentialsRejected), (472, .secureConnectionFailure),
   (475, .invalidCollblob), (499, .clientClosedRequest), (500, .internalServerError),
   (501, .notImplemented), (502, .badGateway), (503, .serviceUnavailable),
   (504, .gatewayTimeout), (505, .versionNotSupported), (506, .variantAlsoNegotiates),
   (507, .insufficientStorage), (508, .loopDetected), (509, .bandwidthLimitExceeded),
   (510, .notExtended), (511, .networkAuthRequired), (520, .originError),
   (522, .connectionTimedOut), (523, .proxyDeclinedRequest), (524, .timeoutOccurred),
   (551, .optionNotSupported), (553, .proxyUnavailable), (598, .networkReadTimeout),
   (599, .networkConnectTimeout)]

def fromCode (code : UInt16) : HttpStatus :=
  match codes.find? (·.1 = code) with
  | some (_, status) => status
  | none => .unknown code

def asCode : HttpStatus → UInt16
  | .continue_ => 100
  | .switchingProtocols => 101
  | .processing => 102
  | .checkpoint => 103
  | .ok => 200
  | .created => 201
  | .accepted => 202
  | .nonAuthoritativeInformation => 203
  | .noContent => 204
  | .resetContent => 205
  | .partialContent => 206
  | .multiStatus => 207
  | .alreadyReported => 208
  | .contentDifferent => 210
  | .imUsed => 226
  | .lowOnStorageSpace => 250
  | .multipleChoices => 300
  | .movedPermanently => 301
  | .found => 302
  | .seeOther => 303
  | .notModified => 304
  | .useProxy => 305
  | .switchProxy => 306
  | .temporaryRedirect => 307
  | .permanentRedirect => 308
  | .movedLocation => 330
  | .goingAway => 350
  | .loadBalancing => 351
  | .badRequest => 400
  | .unauthorized => 401
  | .paymentRequired => 402
  | .forbidden => 403
  | .notFound => 404
  | .methodNotAllowed => 405
  | .notAcceptable => 406
  | .proxyAuthRequired => 407
  | .requestTimeout => 408
  | .conflict => 409
  | .gone => 410
  | .lengthRequired => 411
  | .preconditionFailed => 412
  | .requestEntityTooLarge => 413
  | .requestURITooLong => 414
  | .unsupportedMediaType => 415
  | .requestedRangeNotSatisfiable => 416
  | .expectationFailed => 417
  | .imATeapot => 418
  | .authTimeout => 419
  | .enhanceYourCalm => 420
  | .notAuthoritative => 421
  | .unprocessableEntity => 422
  | .expectationFailedAlt => 423
  | .failedDependency => 424
  | .unorderedCollection => 425
  | .upgradeRequired => 426
  | .preconditionRequired => 428
  | .tooManyRequests => 429
  | .headerFieldsTooLarge => 431
  | .loginTimeout => 440
  | .noResponse => 444
  | .retryWith => 449
  | .blockedByParentalControls => 450
  | .paramNotUnderstood => 451
  | .conferenceNotFound => 452
  | .notEnoughBandwidth => 453
  | .sessionNotFound => 454
  | .methodNotValid => 455
  | .headerFieldNotValid => 456
  | .invalidRange => 457
  | .paramReadOnly => 458
  | .aggregateOpNotAllowed => 459
  | .onlyAggregateOpAllowed => 460
  | .unsupportedTransport => 461
  | .destinationUnreachable => 462
  | .destinationProhibited => 463
  | .transportNotReady => 464
  | .unknownNotificationReason => 465
  | .keyManagementError => 466
  | .connectionAuthRequired => 470
  | .connectionCredentialsRejected => 471
  | .secureConnectionFailure => 472
  | .invalidCollblob => 475
  | .clientClosedRequest => 499
  | .internalServerError => 500
  | .notImplemented => 501
  | .badGateway => 502
  | .serviceUnavailable => 503
  | .gatewayTimeout => 504
  | .versionNotSupported => 505
  | .variantAlsoNegotiates => 506
  | .insufficientStorage => 507
  | .loopDetected => 508
  | .bandwidthLimitExceeded => 509
  | .notExtended => 510
  | .networkAuthRequired => 511
  | .originError => 520
  | .connectionTimedOut => 522
  | .proxyDeclinedRequest => 523
  | .timeoutOccurred => 524
  | .optionNotSupported => 551
  | .proxyUnavailable => 553
  | .networkReadTimeout => 598
  | .networkConnectTimeout => 599
  | .unknown code => code

/-- The last three decimal digits of the code. -/
def asCodeStr (status : HttpStatus) : RtspString :=
  let code := status.asCode.toNat
  [.ofNat (48 + code / 100 % 10), .ofNat (48 + code / 10 % 10), .ofNat (48 + code % 10)]

def reasonPhrase : HttpStatus → RtspString
  | .continue_ => "Continue".toList
  | .switchingProtocols => "Switching Protocols".toList
  | .processing => "Processing".toList
  | .checkpoint => "Checkpoint".toList
  | .ok => "OK".toList
  | .created => "Created".toList
  | .accepted => "Accepted".toList
  | .nonAuthoritativeInformation => "Non-Authoritative Information".toList
  | .noContent => "No Content".toList
  | .resetContent => "Reset Content".toList
  | .partialContent => "Partial Content".toList
  | .multiStatus => "Multi-Status".toList
  | .alreadyReported => "Already Reported".toList
  | .contentDifferent => "Content Different".toList
  | .imUsed => "IM Used".toList
  | .lowOnStorageSpace => "Low on Storage Space".toList
  | .multipleChoices => "Multiple Choices".toList
  | .movedPermanently => "Moved Permanently".toList
  | .found => "Found".toList
  | .seeOther => "See Other".toList
  | .notModified => "Not Modified".toList
  | .useProxy => "Use Proxy".toList
  | .switchProxy => "Switch Proxy".toList
  | .temporaryRedirect => "Temporary Redirect".toList
  | .permanentRedirect => "Permanent Redirect".toList
  | .movedLocation => "Moved Location".toList
  | .goingAway => "Going Away".toList
  | .loadBalancing => "Load Balancing".toList
  | .badRequest => "Bad Request".toList
  | .unauthorized => "Unauthorized".toList
  | .paymentRequired => "Payment Required".toList
  | .forbidden => "Forbidden".toList
  | .notFound => "Not Found".toList
  | .methodNotAllowed => "Method Not Allowed".toList
  | .notAcceptable => "Not Acceptable".toList
  | .proxyAuthRequired => "Proxy Authentication Required".toList
  | .requestTimeout => "Request Timeout".toList
  | .conflict => "Conflict".toList
  | .gone => "Gone".toList
  | .lengthRequired => "Length Required".toList
  | .preconditionFailed => "Precondition Failed".toList
  | .requestEntityTooLarge => "Request Entity Too Large".toList
  | .requestURITooLong => "Request URI Too Long".toList
  | .unsupportedMediaType => "Unsupported Media Type".toList
  | .requestedRangeNotSatisfiable => "Requested Range Not Satisfiable".toList
  | .expectationFailed => "Expectation Failed".toList
  | .imATeapot => "I'm a teapot".toList
  | .authTimeout => "Authentication Timeout".toList
  | .enhanceYourCalm => "Enhance Your Calm".toList
  | .notAuthoritative => "Not Authoritative".toList
  | .unprocessableEntity => "Unprocessable Entity".toList
  | .expectationFailedAlt => "Expectation Failed".toList
  | .failedDependency => "Failed Dependency".toList
  | .unorderedCollection => "Unordered Collection".toList
  | .upgradeRequired => "Upgrade Required".toList
  | .preconditionRequired => "Precondition Required".toList
  | .tooManyRequests => "Too Many Requests".toList
  | .headerFieldsTooLarge => "Request Header Fields Too Large".toList
  | .loginTimeout => "Login Timeout".toList
  | .noResponse => "No Response".toList
  | .retryWith => "Retry With".toList
  | .blockedByParentalControls => "Blocked by Parental Controls".toList
  | .paramNotUnderstood => "Parameter Not Understood".toList
  | .conferenceNotFound => "Conference Not Found".toList
  | .notEnoughBandwidth => "Not Enough Bandwidth".toList
  | .sessionNotFound => "Session Not Found".toList
  | .methodNotValid => "Method Not Valid In This State".toList
  | .headerFieldNotValid => "Header Field Not Valid".toList
  | .invalidRange => "Invalid Range".toList
  | .paramReadOnly => "Parameter Is Read-Only".toList
  | .aggregateOpNotAllowed => "Aggregate Operation Not Allowed".toList
  | .onlyAggregateOpAllowed => "Only Aggregate Operation Allowed".toList
  | .unsupportedTransport => "Unsupported Transport".toList
  | .destinationUnreachable => "Destination Unreachable".toList
  | .destinationProhibited => "Destination Prohibited".toList
  | .transportNotReady => "Data Transport Not Ready Yet".toList
  | .unknownNotificationReason => "Notification Reason Unknown".toList
  | .keyManagementError => "Key Management Error".toList
  | .connectionAuthRequired => "Connection Authorization Required".toList
  | .connectionCredentialsRejected => "Connection Credentials not accepted".toList
  | .secureConnectionFailure => "Failure to establish secure connection".toList
  | .invalidCollblob => "Invalid collblob".toList
  | .clientClosedRequest => "Client Closed Request".toList
  | .internalServerError => "Internal Server Error".toList
  | .notImplemented => "Not Implemented".toList
  | .badGateway => "Bad Gateway".toList
  | .serviceUnavailable => "Service Unavailable".toList
  | .gatewayTimeout => "Gateway Timeout".toList
  | .versionNotSupported => "Version Not Supported".toList
  | .variantAlsoNegotiates => "Variant Also Negotiates".toList
  | .insufficientStorage => "Insufficient Storage".toList
  | .loopDetected => "Loop Detected".toList
  | .bandwidthLimitExceeded => "Bandwidth Limit Exceeded".toList
  | .notExtended => "Not Extended".toList
  | .networkAuthRequired => "Network Authentication Required".toList
  | .originError => "Origin Error".toList
  | .connectionTimedOut => "Connection timed out".toList
  | .proxyDeclinedRequest => "Proxy Declined Request".toList
  | .timeoutOccurred => "Timeout occurred".toList
  | .optionNotSupported => "Option Not Supported".toList
  | .proxyUnavailable => "Proxy Unavailable".toList
  | .networkReadTimeout => "Network Read Timeout".toList
  | .networkConnectTimeout => "Network Connect Timeout".toList
  | .unknown _ => []

end HttpStatus

end Catplay.Model.Rtsp

/-!
## Requests and responses

`rtsp_request.rs`, `rtsp_response.rs` and `rtsp_error.rs` of
`carplay/catplay_carplay/src/rtsp_frame`, with `rtsp_transport/rtsp_frame.rs`. Of the errors only
those are kept that the frame codec raises.
-/

namespace Catplay.Model.Rtsp

open Catplay.Library.Text

inductive RtspError
  | protocolViolation (message : String)
  | headersTooBig
  | payloadTooBig (size limit : Nat)
  | utf8Error
  deriving DecidableEq, Repr

/-- The length of the text in bytes. -/
def RtspString.len (s : RtspString) : Nat := (toUtf8 s).length

abbrev Headers := List (HttpHeader × RtspString)

structure RtspRequest where
  method : RtspMethod
  url : RtspString
  proto : RtspString
  headers : Headers
  payload : List UInt8
  cseq : Option UInt32
  deriving DecidableEq, Repr

structure RtspResponse where
  proto : RtspString
  status : HttpStatus
  headers : Headers
  payload : List UInt8
  cseq : Option UInt32
  deriving DecidableEq, Repr

/-- `RtspRequest::RTSP_DEFAULT_PROTO`. -/
def rtspDefaultProto : RtspString := "RTSP/1.0".toList

def RtspResponse.new (cseq : Option UInt32) (status : HttpStatus) : RtspResponse where
  proto := rtspDefaultProto
  status
  headers := []
  payload := []
  cseq

inductive RtspFrame
  | request (request : RtspRequest)
  | response (response : RtspResponse)
  deriving DecidableEq, Repr

/-! ### Numbers in text -/

/-- `to_string` of an unsigned integer. -/
def decimal (n : Nat) : RtspString := Nat.toDigits 10 n

def digit (c : Char) : Option Nat := if c.isDigit then some (c.toNat - 48) else none

/-- The digits behind the sign, with the value so far; an overflow is an error. -/
def parseDigits (max : Nat) : Nat → RtspString → Option Nat
  | value, [] => some value
  | value, c :: rest =>
    match digit c with
    | none => none
    | some d => if value * 10 + d ≤ max then parseDigits max (value * 10 + d) rest else none

/-- `parse` of an unsigned integer up to `max`: digits, with a plus sign at most. -/
def parseUnsigned (max : Nat) : RtspString → Option Nat
  | [] => none
  | '+' :: rest => if rest = [] then none else parseDigits max 0 rest
  | s => parseDigits max 0 s

/-! ### Headers -/

namespace Headers

/-- `extract_header`. -/
def extract (headers : Headers) (header : HttpHeader) : Option RtspString :=
  (headers.find? (·.1 = header)).map (·.2)

/-- `None` is a length that does not parse. -/
def extractContentLength (headers : Headers) : Option Nat :=
  match headers.extract .contentLength with
  | none => some 0
  | some value => parseUnsigned (2 ^ 64 - 1) value

def extractCseq (headers : Headers) : Option UInt32 :=
  match headers.extract .cseq with
  | none => none
  | some value => (parseUnsigned (2 ^ 32 - 1) value).map .ofNat

/-- `fix_dynamic_headers`. -/
def fixDynamicHeaders (headers : Headers) : Headers :=
  (headers.filter (·.1 ≠ .contentLength)).filter (·.1 ≠ .cseq)

end Headers

def serializeHeader (key value : RtspString) : List UInt8 :=
  toUtf8 key ++ toUtf8 ": ".toList ++ toUtf8 value ++ toUtf8 "\r\n".toList

/-- What follows the first line: the headers, the two the encoder makes itself, the blank line. -/
def serializeHeaders (headers : Headers) (payload : List UInt8) (cseq : Option UInt32) :
    List UInt8 :=
  headers.fixDynamicHeaders.flatMap (fun (key, value) => serializeHeader key.asStr value) ++
    (if payload.isEmpty then []
      else serializeHeader HttpHeader.contentLength.asStr (decimal payload.length)) ++
    (match cseq with
      | none => []
      | some cseq => serializeHeader HttpHeader.cseq.asStr (decimal cseq.toNat)) ++
    toUtf8 "\r\n".toList

def RtspRequest.serializeWithoutPayload (request : RtspRequest) : List UInt8 :=
  toUtf8 request.method.asStr ++ toUtf8 " ".toList ++ toUtf8 request.url ++ toUtf8 " ".toList ++
    toUtf8 request.proto ++ toUtf8 "\r\n".toList ++
    serializeHeaders request.headers request.payload request.cseq

def RtspResponse.serializeWithoutPayload (response : RtspResponse) : List UInt8 :=
  toUtf8 response.proto ++ toUtf8 " ".toList ++ toUtf8 response.status.asCodeStr ++
    toUtf8 " ".toList ++ toUtf8 response.status.reasonPhrase ++ toUtf8 "\r\n".toList ++
    serializeHeaders response.headers response.payload response.cseq

end Catplay.Model.Rtsp
