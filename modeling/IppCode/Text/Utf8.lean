/-!
# Texts and bytes

Texts are exchanged as UTF-8.  `Utf8.decode` reads bytes and says where the first
ill-formed sequence lies and how long it is: it ends before the first byte that
cannot continue it, as Unicode recommends for replacing ill-formed sequences.
-/

namespace IppCode.Text.Utf8

/-- The bytes of a text. -/
def encode (s : String) : List UInt8 :=
  s.toUTF8.data.toList

/-- The text of well-formed bytes. -/
def decode? (bytes : List UInt8) : Option String :=
  String.fromUTF8? bytes.toByteArray

/-- Why bytes are not well-formed. -/
inductive Defect where
  /-- The sequence of this length at this index is continued by nothing that
  follows. -/
  | invalid (index length : Nat)
  /-- The bytes end within the sequence at this index. -/
  | incomplete (index : Nat)
  deriving DecidableEq

/-- The report of bytes that are not well-formed. -/
def Defect.message : Defect → String
  | .invalid index length =>
    "invalid utf-8 sequence of " ++ Nat.repr length ++ " bytes from index " ++ Nat.repr index
  | .incomplete index => "incomplete utf-8 byte sequence from index " ++ Nat.repr index

/-- What the first byte of a sequence asks for: how many bytes follow it, and the
range of the first of them.  The others lie between `0x80` and `0xBF`. -/
def lead? (b : UInt8) : Option (Nat × UInt8 × UInt8) :=
  if b < 0x80 then some (0, 0x80, 0xBF)
  else if b < 0xC2 then none
  else if b < 0xE0 then some (1, 0x80, 0xBF)
  else if b = 0xE0 then some (2, 0xA0, 0xBF)
  else if b = 0xED then some (2, 0x80, 0x9F)
  else if b < 0xF0 then some (2, 0x80, 0xBF)
  else if b = 0xF0 then some (3, 0x90, 0xBF)
  else if b < 0xF4 then some (3, 0x80, 0xBF)
  else if b = 0xF4 then some (3, 0x80, 0x8F)
  else none

/-- The first defect from `index` on, when the sequence at `start` still asks for
`missing` bytes and the next one for a byte between `low` and `high`. -/
def defectFrom (index start missing : Nat) (low high : UInt8) : List UInt8 → Defect
  | [] => .incomplete start
  | b :: rest =>
    match missing with
    | 0 =>
      match lead? b with
      | none => .invalid index 1
      | some (following, low, high) => defectFrom (index + 1) index following low high rest
    | missing + 1 =>
      if low ≤ b ∧ b ≤ high then defectFrom (index + 1) start missing 0x80 0xBF rest
      else .invalid start (index - start)

/-- The first defect of ill-formed bytes. -/
def defect (bytes : List UInt8) : Defect :=
  defectFrom 0 0 0 0x80 0xBF bytes

/-- The text of bytes, or their first defect. -/
def decode (bytes : List UInt8) : Except Defect String :=
  match decode? bytes with
  | some s => .ok s
  | none => .error (defect bytes)

theorem decode?_encode (s : String) : decode? (encode s) = some s := by
  have hbytes : (encode s).toByteArray = s.toByteArray := by
    apply ByteArray.ext
    simp [encode, List.data_toByteArray]
  rw [decode?, hbytes, String.fromUTF8?, dif_pos s.isValidUTF8]
  rfl

theorem encode_of_decode? {bytes : List UInt8} {s : String} (h : decode? bytes = some s) :
    encode s = bytes := by
  unfold decode? String.fromUTF8? at h
  split at h
  · cases h
    simp [encode, String.fromUTF8, List.data_toByteArray]
  · cases h

end IppCode.Text.Utf8
