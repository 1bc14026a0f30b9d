import GuardedBoot.Word

/-!
# Register contents and their fields

The contents of a register are a word; which fields that word has is fixed by the register's
format. A field owns a set of bits, reads them as a value, and is written by replacing exactly
those bits.

## Main definitions

- `Contents R` — a word in the register format `R`
- `Field R α β` — bits of the format `R` that read as an `α` and are written from a `β`
- `Field.flag`, `Field.number`, `Field.choice`, `Field.portion` — the kinds of field
- `Contents.get`, `Contents.set` — reading and replacing a field
- `Coded` — a type whose values have numeric codes

## Design notes

A format is only a name that keeps the fields of one register away from the contents of another;
formats are types without values. Reading and writing have separate types, because the bits of
an enumerated field may hold a code that names no value. A field that cannot be written is one
written from `Empty`.
-/

namespace GuardedBoot

/-- A word in the register format `R`. -/
@[ext] structure Contents (R : Type) where
  word : Word

instance (R : Type) : DecidableEq (Contents R) := fun a b =>
  decidable_of_iff (a.word = b.word) Contents.ext_iff.symm

/-- Contents with every bit clear. -/
def Contents.zero {R : Type} : Contents R := ⟨0⟩

/-- A type whose values have distinct numeric codes. -/
class Coded (ε : Type) where
  /-- The code of a value. -/
  code : ε → Nat
  /-- Every value of the type. -/
  all : List ε
  /-- No value is missing from the list. -/
  mem_all : ∀ e, e ∈ all
  /-- Different values have different codes. -/
  code_injective : ∀ d e, code d = code e → d = e

namespace Coded

variable {ε : Type} [Coded ε]

/-- The value with code `n`, if there is one. -/
def ofCode? (n : Nat) : Option ε :=
  (all : List ε).find? (code · == n)

/-- Decoding the code of a value gives the value back. -/
@[simp] theorem ofCode?_code (e : ε) : ofCode? (code e) = some e := by
  unfold ofCode?
  cases h : (all : List ε).find? (code · == code e) with
  | none => simpa using List.find?_eq_none.1 h e (mem_all e)
  | some d =>
    have hd := List.find?_some h
    rw [code_injective d e (by simpa using hd)]

/-- A number that decodes is the code of the value it decodes to. -/
theorem code_of_ofCode? {n : Nat} {e : ε} (h : ofCode? n = some e) : code e = n := by
  simpa using List.find?_some h

end Coded

/-- A field of the register format `R`: the bits that it owns, how they read as an `α`, and how a
`β` is laid out in them. -/
structure Field (R α β : Type) where
  /-- The bits that belong to the field. -/
  mask : Word
  /-- The value of the field, from a word that is clear outside the field. -/
  decode : Word → α
  /-- The bits of a value, in place; bits outside the field are ignored. -/
  encode : β → Word

/-- A field that can be read and not written. -/
abbrev ReadOnlyField (R α : Type) := Field R α Empty

namespace Field

variable {R α β γ : Type}

/-- The single bit `bit`. -/
def flag (bit : Nat) : Field R Bool Bool where
  mask := BitVec.twoPow 32 bit
  decode w := w.getLsbD bit
  encode b := if b then BitVec.twoPow 32 bit else 0

/-- The bits `lo` to `hi` as a number of `width` bits; reading drops what the width cannot hold. -/
def number (lo hi width : Nat) : Field R (BitVec width) (BitVec width) where
  mask := Word.span lo hi
  decode w := (w >>> lo).setWidth width
  encode n := n.setWidth 32 <<< lo

/-- The bits `lo` to `hi` as the code of a value of `ε`; reading gives nothing for a code that no
value has. -/
def choice {ε : Type} [Coded ε] (lo hi : Nat) : Field R (Option ε) ε where
  mask := Word.span lo hi
  decode w := Coded.ofCode? (w >>> lo).toNat
  encode e := BitVec.ofNat 32 (Coded.code e) <<< lo

/-- The bits of `mask`, read and written in place. -/
def portion (mask : Word) : Field R Word Word where
  mask := mask
  decode w := w
  encode w := w

/-- The same field, never written. -/
def readOnly (f : Field R α β) : ReadOnlyField R α where
  mask := f.mask
  decode := f.decode
  encode := nofun

/-- The same field, written from what `prepare` makes of a `γ`. -/
def writtenFrom (f : Field R α β) (prepare : γ → β) : Field R α γ where
  mask := f.mask
  decode := f.decode
  encode c := f.encode (prepare c)

end Field

namespace Contents

variable {R α β γ δ : Type}

/-- The value of a field. -/
def get (v : Contents R) (f : Field R α β) : α :=
  f.decode (v.word &&& f.mask)

/-- The contents with a field replaced and every other bit kept. -/
def set (v : Contents R) (f : Field R α β) (x : β) : Contents R :=
  ⟨v.word &&& ~~~f.mask ||| (f.encode x &&& f.mask)⟩

/-- A write takes the bits of its field from the value and all others from the old contents. -/
theorem getLsbD_set (v : Contents R) (f : Field R α β) (x : β) (i : Nat) :
    (v.set f x).word.getLsbD i =
      if f.mask.getLsbD i then (f.encode x).getLsbD i else v.word.getLsbD i := by
  by_cases hi : i < 32
  · rw [set, BitVec.getLsbD_or, BitVec.getLsbD_and, BitVec.getLsbD_and, BitVec.getLsbD_not]
    cases h : f.mask.getLsbD i <;> simp [hi]
  · simp [Nat.le_of_not_lt hi]

/-- A field reads what was last written to it, as far as its bits can hold it. -/
theorem get_set (v : Contents R) (f : Field R α β) (x : β) :
    (v.set f x).get f = f.decode (f.encode x &&& f.mask) := by
  unfold get
  congr 1
  ext i hi
  by_cases h : f.mask[i] <;> simp [set, h]

/-- Of two fields without a common bit, at most one owns a given bit. -/
theorem getElem_mask_of_disjoint {f : Field R α β} {g : Field R γ δ} (h : f.mask &&& g.mask = 0)
    {i : Nat} (hi : i < 32) (hf : f.mask[i] = true) : g.mask[i] = false := by
  have hb : (f.mask &&& g.mask)[i] = (0 : Word)[i] := by rw [h]
  simpa [hf] using hb

/-- Fields without a common bit do not disturb each other. -/
theorem get_set_of_disjoint (v : Contents R) {f : Field R α β} {g : Field R γ δ} (x : β)
    (h : f.mask &&& g.mask = 0) : (v.set f x).get g = v.get g := by
  unfold get
  congr 1
  ext i hi
  by_cases hf : f.mask[i]
  · simp [getElem_mask_of_disjoint h hi hf]
  · simp [set, hf]

/-- Writing a field twice keeps the second value. -/
theorem set_set (v : Contents R) (f : Field R α β) (x y : β) :
    (v.set f x).set f y = v.set f y := by
  ext i hi
  by_cases h : f.mask[i] <;> simp [set, h]

/-- Writes to fields without a common bit can be exchanged. -/
theorem set_comm (v : Contents R) {f : Field R α β} {g : Field R γ δ} (x : β) (y : δ)
    (h : f.mask &&& g.mask = 0) : (v.set f x).set g y = (v.set g y).set f x := by
  ext i hi
  by_cases hf : f.mask[i]
  · simp [set, hf, getElem_mask_of_disjoint h hi hf]
  · simp [set, hf]

end Contents

end GuardedBoot
