import Catplay.Analysis.Hap.Progress
import Catplay.Analysis.Hap.Tag
import Mathlib.Data.Fintype.Basic
import Mathlib.Tactic.FinCases

/-!
# The fast cipher is ChaCha20-Poly1305

The vector of words goes through the same rounds as the function of the word's number
(`chachaBlock_eq_block`), and the tag is the polynomial of what is authenticated (`computeTag_eq`).
So `encrypt` seals as the construction says (`sealed_eq`).
-/

set_option autoImplicit false

namespace Catplay.Analysis.Hap

open Catplay.Model.Hap Catplay.Library Catplay.Library.Keystream

/-! ## The block function -/

theorem wordsOf_set (state : Vector UInt32 16) (i : Fin 16) (word : UInt32) :
    wordsOf (state.set i word i.isLt) = Function.update (wordsOf state) i word := by
  funext j
  unfold wordsOf
  by_cases h : j = i
  · rw [h, Function.update_self]
    exact Vector.getElem_set_self i.isLt
  · rw [Function.update_of_ne h]
    exact Vector.getElem_set_ne i.isLt j.isLt fun heq => h (Fin.ext heq.symm)

theorem wordsOf_quarterRound (state : Vector UInt32 16) (a b c d : Fin 16) :
    wordsOf (quarterRound state a b c d) = ChaChaPoly.quarterRound (wordsOf state) a b c d := by
  have hword : ∀ (state : Vector UInt32 16) (i : Fin 16), state[i] = wordsOf state i :=
    fun _ _ => rfl
  have hrotate : rotateLeft = ChaChaPoly.rotate := rfl
  unfold quarterRound ChaChaPoly.quarterRound
  simp only [hword, hrotate, wordsOf_set]

theorem wordsOf_doubleRound (state : Vector UInt32 16) :
    wordsOf (doubleRound state) = ChaChaPoly.innerBlock (wordsOf state) := by
  unfold doubleRound ChaChaPoly.innerBlock
  simp only [wordsOf_quarterRound]

theorem wordsOf_repeat (count : Nat) (state : Vector UInt32 16) :
    wordsOf (Nat.repeat doubleRound count state) =
      Nat.repeat ChaChaPoly.innerBlock count (wordsOf state) := by
  induction count with
  | zero => rfl
  | succ count ih =>
    show wordsOf (doubleRound (Nat.repeat doubleRound count state)) = _
    rw [wordsOf_doubleRound, ih]
    rfl

theorem wordsOf_initialState (key : Key) (nonce : NonceBytes) (counter : UInt32) :
    wordsOf (initialState key nonce counter) =
      ChaChaPoly.initial key.toList nonce.toList counter := by
  funext i
  fin_cases i
  all_goals rfl

/-- **The block function.** -/
theorem chachaBlock_eq_block (key : Key) (nonce : NonceBytes) (counter : UInt32) :
    chachaBlock key nonce counter = ChaChaPoly.block key.toList nonce.toList counter := by
  have hlist : ∀ state : Vector UInt32 16, state.toList = (List.finRange 16).map (wordsOf state) := by
    intro state
    apply List.ext_getElem
    · rw [Vector.length_toList, List.length_map, List.length_finRange]
    · intro i hi hi'
      rw [List.getElem_map, List.getElem_finRange]
      rfl
  have hsum : ∀ working state : Vector UInt32 16,
      wordsOf (working.zipWith (· + ·) state) = fun i => wordsOf working i + wordsOf state i := by
    intro working state
    funext i
    exact Vector.getElem_zipWith i.isLt
  unfold chachaBlock ChaChaPoly.block
  simp only [hlist, hsum, wordsOf_repeat, wordsOf_initialState, List.flatMap_map]

theorem payloadByte_eq (key : Key) (nonce : NonceBytes) :
    payloadByte key nonce = ChaChaPoly.keystream key.toList nonce.toList 1 := by
  funext position
  unfold payloadByte ChaChaPoly.keystream
  rw [chachaBlock_eq_block]

theorem applyKeystreamAtOffset_zero (key : Key) (nonce : NonceBytes) (data : List UInt8) :
    applyKeystreamAtOffset key nonce 0 data =
      ChaChaPoly.chacha20 key.toList nonce.toList 1 data := by
  rw [applyKeystreamAtOffset_eq, payloadByte_eq]
  rfl

/-- **At any offset**: the bytes that the keystream from its start leaves there. -/
theorem applyKeystreamAtOffset_slice (key : Key) (nonce : NonceBytes) (front data : List UInt8) :
    applyKeystreamAtOffset key nonce front.length data =
      (applyKeystreamAtOffset key nonce 0 (front ++ data)).drop front.length := by
  have hlength := length_xorBytes_window (payloadByte key nonce) 0 front
  rw [applyKeystreamAtOffset_eq, applyKeystreamAtOffset_eq, xorBytes_window_append, Nat.zero_add,
    List.drop_append_of_le_length (Nat.le_of_eq hlength.symm),
    List.drop_of_length_le (Nat.le_of_eq hlength), List.nil_append]

/-! ## The tag -/

theorem updatePadding_eq {poly : FastPoly1305} (data : List UInt8) :
    updatePadding poly data.length = poly.update (ChaChaPoly.pad16 data) := by
  unfold updatePadding ChaChaPoly.pad16
  dsimp only
  by_cases h : data.length % 16 = 0
  · rw [if_neg (not_not.mpr h), if_pos h]
    rfl
  · rw [if_pos h, if_neg h]

/-- **The tag.** -/
theorem computeTag_eq (cipher : HomeKitCipherFast) (ciphertext aad : List UInt8)
    (nonce : NonceBytes) :
    (cipher.computeTag ciphertext aad nonce).toList =
      ChaChaPoly.tag cipher.key.toList nonce.toList aad ciphertext := by
  have hkey : ((chachaBlock cipher.key nonce 0).take 32).length = 32 := by
    rw [List.length_take, length_chachaBlock]
    rfl
  have hfresh : Partial (cipher.newPoly1305 nonce) := partial_new _
  unfold HomeKitCipherFast.computeTag ChaChaPoly.tag ChaChaPoly.authenticated
  dsimp only
  rw [updatePadding_eq, updatePadding_eq, ← update_append hfresh, ← update_append hfresh,
    ← update_append hfresh, ← update_append hfresh, ← update_append hfresh, ← chachaBlock_eq_block]
  exact finalize_update hkey _

/-- **`encrypt` seals** as the construction says. -/
theorem sealed_eq (key : Key) (data aad : List UInt8) (nonce : HomeKitChaChaNonce) :
    ((sealed key data aad nonce).1, (sealed key data aad nonce).2.toList) =
      ChaChaPoly.sealData key.toList (nonceToBytes nonce).toList aad data := by
  have hfirst : (sealed key data aad nonce).1 =
      ChaChaPoly.chacha20 key.toList (nonceToBytes nonce).toList 1 data :=
    applyKeystreamAtOffset_zero key (nonceToBytes nonce) data
  have hsecond : (sealed key data aad nonce).2.toList =
      ChaChaPoly.tag key.toList (nonceToBytes nonce).toList aad (sealed key data aad nonce).1 :=
    computeTag_eq (HomeKitCipherFast.new key) _ aad (nonceToBytes nonce)
  rw [hsecond, hfirst]
  rfl

/-- **Every body is sealed data with some tag behind them.** -/
theorem exists_withTag (key : Key) (aad : List UInt8) (nonce : HomeKitChaChaNonce)
    {body : List UInt8} (h : 16 ≤ body.length) :
    ∃ (data : List UInt8) (tag : Tag), body = withTag key data aad nonce tag ∧
      data = ChaChaPoly.chacha20 key.toList (nonceToBytes nonce).toList 1
        (body.take (body.length - 16)) ∧
      (sealed key data aad nonce).1 = body.take (body.length - 16) ∧
      tag.toList = body.drop (body.length - 16) := by
  set ciphertext := body.take (body.length - 16) with hciphertext
  have hlength : (body.drop (body.length - 16)).length = 16 := by
    rw [List.length_drop]
    omega
  set data := ChaChaPoly.chacha20 key.toList (nonceToBytes nonce).toList 1 ciphertext with hdata
  have hfirst : (sealed key data aad nonce).1 = ciphertext := by
    have hcount : data.length = ciphertext.length := length_xorBytes_window _ 0 ciphertext
    rw [sealed_fst, payloadByte_eq, hcount, hdata]
    exact xorBytes_xorBytes (length_window _ _ _).symm
  refine ⟨data, ⟨(body.drop (body.length - 16)).toArray, hlength⟩, ?_, rfl, hfirst, rfl⟩
  rw [withTag, hfirst]
  exact (List.take_append_drop (body.length - 16) body).symm

end Catplay.Analysis.Hap
