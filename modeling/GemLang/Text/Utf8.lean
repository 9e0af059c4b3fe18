/-!
# UTF-8

Text crosses into C and files as bytes. Writing is the standard encoding; reading comes in two
strengths. A source file must be well formed throughout. Text handed over by C is read as far as it
goes: every longest start of a character that is not completed is shown as one replacement
character.
-/

namespace GemLang.Text

/-- The bytes of a text. -/
def utf8 (s : String) : List UInt8 :=
  s.toList.flatMap String.utf8EncodeChar

/-- The text that well-formed bytes encode. -/
def decodeUtf8? (bytes : List UInt8) : Option String :=
  String.fromUTF8? ⟨bytes.toArray⟩

/-- Whether `b` may follow as second byte after the lead byte `lead`. -/
def isSecondByte (lead b : UInt8) : Bool :=
  if lead = 0xe0 then 0xa0 ≤ b && b ≤ 0xbf
  else if lead = 0xed then 0x80 ≤ b && b ≤ 0x9f
  else if lead = 0xf0 then 0x90 ≤ b && b ≤ 0xbf
  else if lead = 0xf4 then 0x80 ≤ b && b ≤ 0x8f
  else 0x80 ≤ b && b ≤ 0xbf

/-- Whether `b` is a continuation byte. -/
def isContinuation (b : UInt8) : Bool := 0x80 ≤ b && b ≤ 0xbf

/-- The character at the start of `bytes` and the bytes after it; without a character, the bytes
after the longest start of one. -/
def nextChar (lead : UInt8) (rest : List UInt8) : Option Char × List UInt8 :=
  if lead < 0x80 then
    (some (Char.ofNat lead.toNat), rest)
  else if 0xc2 ≤ lead && lead ≤ 0xdf then
    match rest with
    | b :: rest₁ =>
      if isContinuation b then
        (some (Char.ofNat ((lead.toNat % 32) * 64 + b.toNat % 64)), rest₁)
      else
        (none, rest)
    | [] => (none, [])
  else if 0xe0 ≤ lead && lead ≤ 0xef then
    match rest with
    | b :: rest₁ =>
      if isSecondByte lead b then
        match rest₁ with
        | c :: rest₂ =>
          if isContinuation c then
            (some (Char.ofNat
              ((lead.toNat % 16) * 4096 + (b.toNat % 64) * 64 + c.toNat % 64)), rest₂)
          else
            (none, rest₁)
        | [] => (none, [])
      else
        (none, rest)
    | [] => (none, [])
  else if 0xf0 ≤ lead && lead ≤ 0xf4 then
    match rest with
    | b :: rest₁ =>
      if isSecondByte lead b then
        match rest₁ with
        | c :: rest₂ =>
          if isContinuation c then
            match rest₂ with
            | d :: rest₃ =>
              if isContinuation d then
                (some (Char.ofNat ((lead.toNat % 8) * 262144 + (b.toNat % 64) * 4096
                  + (c.toNat % 64) * 64 + d.toNat % 64)), rest₃)
              else
                (none, rest₂)
            | [] => (none, [])
          else
            (none, rest₁)
        | [] => (none, [])
      else
        (none, rest)
    | [] => (none, [])
  else
    (none, rest)

/-- Reading a character never gives bytes back. -/
theorem nextChar_length_le (lead : UInt8) (rest : List UInt8) :
    (nextChar lead rest).2.length ≤ rest.length := by
  unfold nextChar
  repeat' split
  all_goals simp
  all_goals omega

/-- Reads bytes as text, a replacement character standing for every ill-formed piece. -/
def decodeLossy : List UInt8 → List Char
  | [] => []
  | lead :: rest =>
    (nextChar lead rest).1.getD '\ufffd' :: decodeLossy (nextChar lead rest).2
termination_by bytes => bytes.length
decreasing_by
  have := nextChar_length_le lead rest
  simp only [List.length_cons]
  omega

/-- The text that bytes handed over by C are shown as. -/
def lossyText (bytes : List UInt8) : String := String.ofList (decodeLossy bytes)

end GemLang.Text
