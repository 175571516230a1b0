/-!
The UTF-8 encodings of a range of codes as sequences of byte ranges: a sequence stands for every row
of bytes that takes one byte from each of its ranges.
-/

namespace LineCost.Text

/-- The codes that are encoded with the same number of bytes and have no gap between them. -/
structure EncodingPlane where
  /-- How many bytes follow the first one. -/
  following : Nat
  /-- What is added to the highest digit to give the first byte. -/
  lead : Nat
  first : Nat
  last : Nat

def encodingPlanes : List EncodingPlane :=
  [⟨0, 0x00, 0, 0x7F⟩, ⟨1, 0xC0, 0x80, 0x7FF⟩, ⟨2, 0xE0, 0x800, 0xD7FF⟩, ⟨2, 0xE0, 0xE000, 0xFFFF⟩,
   ⟨3, 0xF0, 0x10000, 0x10FFFF⟩]

/-- The encodings of the codes from `a` to `b`: a byte made of `lead` and the highest digit to base
64, then a byte for each of the other `k` digits. Codes with different highest digits share a
sequence only where all the lower digits are possible. -/
def sequencesWithin : (k lead a b : Nat) → List (List (Nat × Nat))
  | 0, lead, a, b => [[(lead + a, lead + b)]]
  | k + 1, lead, a, b =>
    let block := 64 ^ (k + 1)
    let after (digit : Nat) (low high : Nat) : List (List (Nat × Nat)) :=
      (sequencesWithin k 0x80 low high).map ((lead + digit, lead + digit) :: ·)
    let first := a / block
    let last := b / block
    if first = last then after first (a % block) (b % block)
    else
      let firstWhole := if a % block = 0 then first else first + 1
      let endWhole := if b % block = block - 1 then last + 1 else last
      (if firstWhole = first then [] else after first (a % block) (block - 1)) ++
        (if firstWhole < endWhole then
          [(lead + firstWhole, lead + (endWhole - 1)) :: List.replicate (k + 1) (0x80, 0xBF)]
        else []) ++
        if endWhole = last then after last 0 (b % block) else []

/-- The encodings of the characters with a code in the range, in ascending order. -/
def byteSequences (range : Nat × Nat) : List (List (Nat × Nat)) :=
  encodingPlanes.flatMap fun plane =>
    let first := max range.1 plane.first
    let last := min range.2 plane.last
    if first ≤ last then sequencesWithin plane.following plane.lead first last else []

end LineCost.Text
