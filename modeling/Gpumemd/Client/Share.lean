import Gpumemd.Protocol.Responses

/-!
# Sharing an allocation with another process

A backend makes a token of the bytes of a handle (`hexToken`), which goes to the client in the
response to `share`. The client cuts the response into words (`parse_share_response`,
`src/client/client.cpp`), and makes the handle of the token again (`CudaIpcClient::open`,
`src/backend/cuda_ipc_client.cu`). What it opens is the handle that was shared
(`CudaIpcClient.openHandle_of_share`).
-/

namespace Gpumemd

open Library Protocol

/-- `ShareDescriptor`. -/
structure ShareDescriptor where
  bytes : Bytes
  token : Str
  deriving DecidableEq

namespace Client

/-- `std::isspace`: what `operator>>` skips. -/
def isSpace (character : UInt8) : Bool :=
  character == ' '.toUInt8 || (9 ≤ character && character ≤ 13)

/-- `std::isxdigit`. -/
def isXDigit (character : UInt8) : Bool :=
  isDigit character || ('a'.toUInt8 ≤ character && character ≤ 'f'.toUInt8) ||
    ('A'.toUInt8 ≤ character && character ≤ 'F'.toUInt8)

/-- `parse_share_response`. -/
def parseShareResponse (response : Str) : Option ShareDescriptor :=
  match tokens isSpace response with
  | ok :: action :: _ :: bytesToken :: token :: _ =>
    if ok ≠ ascii "OK" || action ≠ ascii "shared" || token.isEmpty then none
    else
      match fromChars bytesToken with
      | none => none
      | some (bytes, rest) =>
        if !rest.isEmpty then none
        else if token.any fun character => !isXDigit character then none
        else some { bytes, token }
  | _ => none

end Client

namespace CudaIpcClient

/-- `hex_value`. -/
def hexValue (character : UInt8) : ℤ :=
  if '0'.toUInt8 ≤ character && character ≤ '9'.toUInt8 then character.toNat - 48
  else if 'a'.toUInt8 ≤ character && character ≤ 'f'.toUInt8 then character.toNat - 97 + 10
  else if 'A'.toUInt8 ≤ character && character ≤ 'F'.toUInt8 then character.toNat - 65 + 10
  else -1

/-- The loop of `open`: two characters for each byte of the handle. -/
def decode : Str → Option Str
  | high :: low :: token =>
    if hexValue high < 0 || hexValue low < 0 then none
    else (decode token).map
      (((hexValue high).toNat <<< 4 ||| (hexValue low).toNat).toUInt8 :: ·)
  | _ => some []

/-- `open`, up to its call of CUDA: the bytes of the handle that it opens, of which there are
    `size`. -/
def openHandle (size : ℕ) (token : Str) : Except BackendError Str :=
  if token.length ≠ size * 2 then .error .invalidSize
  else
    match decode token with
    | none => .error .runtimeFailure
    | some handle => .ok handle

variable {handle name : Str}

/-! ## Tokens -/

/-- The two digits of a byte. -/
theorem hexToken_cons (byte : UInt8) (handle : Str) :
    ∃ high low, hexToken (byte :: handle) = high :: low :: hexToken handle ∧
      Client.isXDigit high = true ∧ Client.isXDigit low = true ∧
      0 ≤ hexValue high ∧ 0 ≤ hexValue low ∧
      ((hexValue high).toNat <<< 4 ||| (hexValue low).toNat).toUInt8 = byte := by
  have hbytes : ∀ n : Fin 256, let byte := UInt8.ofFin n
      let high := (ascii "0123456789abcdef").getD (byte >>> 4).toNat 0
      let low := (ascii "0123456789abcdef").getD (byte &&& 0x0f).toNat 0
      Client.isXDigit high = true ∧ Client.isXDigit low = true ∧
        0 ≤ hexValue high ∧ 0 ≤ hexValue low ∧
        ((hexValue high).toNat <<< 4 ||| (hexValue low).toNat).toUInt8 = byte := by
    decide +kernel
  exact ⟨_, _, rfl, hbytes byte.toFin⟩

theorem length_hexToken (handle : Str) : (hexToken handle).length = handle.length * 2 := by
  induction handle with
  | nil => rfl
  | cons byte handle ih =>
    obtain ⟨high, low, htoken, -⟩ := hexToken_cons byte handle
    rw [htoken, List.length_cons, List.length_cons, List.length_cons, ih]
    omega

theorem isXDigit_of_mem_hexToken {c : UInt8} (hc : c ∈ hexToken handle) :
    Client.isXDigit c = true := by
  induction handle with
  | nil => cases hc
  | cons byte handle ih =>
    obtain ⟨high, low, htoken, hhigh, hlow, -⟩ := hexToken_cons byte handle
    rw [htoken, List.mem_cons, List.mem_cons] at hc
    rcases hc with rfl | rfl | hc
    · exact hhigh
    · exact hlow
    · exact ih hc

/-- The digits of a handle are read as they were written. -/
theorem decode_hexToken (handle : Str) : decode (hexToken handle) = some handle := by
  induction handle with
  | nil => rfl
  | cons byte handle ih =>
    obtain ⟨high, low, htoken, -, -, hhigh, hlow, hbyte⟩ := hexToken_cons byte handle
    have hdigits : ¬ (decide (hexValue high < 0) || decide (hexValue low < 0)) = true := by
      rw [Bool.or_eq_true, decide_eq_true_eq, decide_eq_true_eq]
      omega
    rw [htoken, decode, if_neg hdigits, ih, Option.map_some, hbyte]

theorem openHandle_hexToken (handle : Str) :
    openHandle handle.length (hexToken handle) = .ok handle := by
  rw [openHandle, if_neg (not_not.2 (length_hexToken handle)), decode_hexToken]

/-! ## Responses -/

theorem isSpace_of_plain {text : Str} (h : Plain text) {c : UInt8} (hc : c ∈ text) :
    Client.isSpace c = false := by
  rw [Bool.eq_false_iff]
  intro hspace
  rw [Client.isSpace, Bool.or_eq_true, beq_iff_eq, Bool.and_eq_true, decide_eq_true_eq,
    decide_eq_true_eq] at hspace
  rcases hspace with rfl | ⟨-, hle⟩
  · exact h.notMem (by decide) hc
  · exact h.notMem (UInt8.le_trans hle (by decide)) hc

/-- The words of a response with a token. -/
theorem tokens_formatShareResult {bytes : Bytes} {token : Str} (hname : Plain name)
    (hname' : name ≠ []) (htoken : Plain token) (htoken' : token ≠ []) :
    tokens Client.isSpace (formatShareResult name ⟨.none, bytes, token⟩) =
      [ascii "OK", ascii "shared", name, numeral bytes.toNat, token] := by
  have hwords : ∀ word ∈ [ascii "OK", ascii "shared", name, numeral bytes.toNat, token],
      word ≠ [] ∧ ∀ c ∈ word, Client.isSpace c = false := by
    simp only [List.forall_mem_cons]
    exact ⟨⟨by decide, fun _ => isSpace_of_plain (by decide)⟩,
      ⟨by decide, fun _ => isSpace_of_plain (by decide)⟩, ⟨hname', fun _ => isSpace_of_plain hname⟩,
      ⟨numeral_ne_nil _, fun _ => isSpace_of_plain (plain_numeral _)⟩,
      ⟨htoken', fun _ => isSpace_of_plain htoken⟩, List.forall_mem_nil _⟩
  have hresponse : formatShareResult name ⟨.none, bytes, token⟩ =
      List.intercalate [' '.toUInt8]
        [ascii "OK", ascii "shared", name, numeral bytes.toNat, token] ++ '\n'.toUInt8 :: [] := by
    have hblank : ascii " " = [' '.toUInt8] := by decide
    have hnewline : ascii "\n" = ['\n'.toUInt8] := by decide
    have hverb : ascii "OK shared " =
        ascii "OK" ++ [' '.toUInt8] ++ ascii "shared" ++ [' '.toUInt8] := by decide
    simp [formatShareResult, hverb, hblank, hnewline, List.intercalate_cons_cons]
  rw [hresponse, tokens_append_blank (by decide), tokens_intercalate (by decide) hwords]
  rfl

/-- The client reads the number of bytes and the token. -/
theorem parseShareResponse_success {bytes : Bytes} (hname : Plain name) (hname' : name ≠ [])
    (hhandle : handle ≠ []) :
    Client.parseShareResponse (formatShareResult name ⟨.none, bytes, hexToken handle⟩) =
      some ⟨bytes, hexToken handle⟩ := by
  have hne : hexToken handle ≠ [] := by
    rw [← List.length_pos_iff, length_hexToken]
    have := List.length_pos_iff.2 hhandle
    omega
  have hdigits : ((hexToken handle).any fun c => !Client.isXDigit c) = false := by
    rw [List.any_eq_false]
    intro c hc
    rw [isXDigit_of_mem_hexToken hc]
    decide
  rw [Client.parseShareResponse,
    tokens_formatShareResult hname hname' (plain_hexToken handle) hne]
  simp [hne, hdigits, fromChars_numeral bytes.toNat_lt]

/-- The first word of an error is not the one that the client looks for. -/
theorem parseShareResponse_error {result : ModelShareResult} (h : result.error ≠ .none) :
    Client.parseShareResponse (formatShareResult name result) = none := by
  rw [formatShareResult, if_neg h]
  split <;> decide

/-- Whoever opens the token of a response opens the handle that was shared, and no token is
    found in an error. -/
theorem openHandle_of_share {n : ℕ} (hn : 1 ≤ n) (hhandle : handle.length = n)
    (hname : ModelRegistry.validId name = true) (bytes : Bytes) :
    (∃ descriptor,
      Client.parseShareResponse (formatShareResult name ⟨.none, bytes, hexToken handle⟩) =
        some descriptor ∧
      descriptor.bytes = bytes ∧ openHandle n descriptor.token = .ok handle) ∧
      ∀ (name' : Str) (result : ModelShareResult), result.error ≠ .none →
        Client.parseShareResponse (formatShareResult name' result) = none := by
  have hplain : Plain name := plain_of_validName hname
  have hne : handle ≠ [] := List.length_pos_iff.1 (hhandle ▸ hn)
  refine ⟨⟨_, parseShareResponse_success hplain (nameShape_iff.1 hname).1 hne, rfl, ?_⟩,
    fun _ _ => parseShareResponse_error⟩
  rw [← hhandle, openHandle_hexToken]

/-- A handle of three bytes. -/
theorem openHandle_three :
    (∃ descriptor,
      Client.parseShareResponse
          (formatShareResult (ascii "llm") ⟨.none, 4096, hexToken [0x00, 0x9f, 0xa0]⟩) =
        some descriptor ∧
      descriptor.bytes = 4096 ∧ openHandle 3 descriptor.token = .ok [0x00, 0x9f, 0xa0]) ∧
      ∀ (name' : Str) (result : ModelShareResult), result.error ≠ .none →
        Client.parseShareResponse (formatShareResult name' result) = none :=
  openHandle_of_share (by decide) rfl (by decide) 4096

end CudaIpcClient

end Gpumemd
