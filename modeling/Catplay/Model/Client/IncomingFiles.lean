import Catplay.Library.Maps
import Catplay.Model.Link.Files

/-!
# Files that are received

`AsyncClient::on_file_event` of `async/catplay_iap2_client/src/tokio/async_client.rs` with the map
`files` and the events of `csm_files.rs`. That an allocation of the announced size succeeds is
taken for granted.
-/

set_option autoImplicit false

namespace Catplay.Model.Client

open Catplay.Library Catplay.Model.Link

inductive CsmFileTransferEvent
  | offer (size : Nat) (fileType : UInt16) (setupData : Bytes)
  | completed (data : Bytes) (size : Nat) (fileType : UInt16) (setupData : Bytes)
  | cancelled
  deriving DecidableEq, Repr

structure InflightFileTransfer where
  size : Nat
  fileType : UInt16
  setupData : Bytes
  data : Bytes
  deriving DecidableEq, Repr

/-- `isize::MAX`. -/
def isizeMax : Nat := 2 ^ 63 - 1

/-- One event of the link: the map behind it, and what the session is told. -/
def onFileEvent (files : ByteMap InflightFileTransfer) (id : UInt8) (file : FileTransferEvent) :
    ByteMap InflightFileTransfer × Option (UInt8 × CsmFileTransferEvent) :=
  match file with
  | .setup size fileType setupData =>
    -- not valid for buffer allocation at all
    if size > isizeMax then (files, none)
    else (files.insert id ⟨size, fileType, setupData, []⟩,
      some (id, .offer size fileType setupData))
  | .data data isFinalChunk =>
    match files id with
    | none => (files, none)
    | some transfer =>
      let missing := transfer.size - transfer.data.length
      let missingChunkSize := min missing data.length
      let transfer := { transfer with data := transfer.data ++ data.take missingChunkSize }
      if missing = 0 ∨ isFinalChunk then
        (files.remove id, some (id, .completed transfer.data transfer.data.length transfer.fileType
          transfer.setupData))
      else (files.insert id transfer, none)
  | .cancel =>
    match files id with
    | some _ => (files.remove id, some (id, .cancelled))
    | none => (files, none)
  | _ => (files, none)

end Catplay.Model.Client
