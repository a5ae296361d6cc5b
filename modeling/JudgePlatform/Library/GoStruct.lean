/-
# Decoding JSON into Go structs

`json.Unmarshal` into a struct: the members of the object are stored one after
the other, a member finds its field by the exact name or else by a name that
differs in case, an unknown member is skipped and `null` changes nothing.  A value
of a wrong type leaves its field as it was; decoding goes on and the error is
reported at the end, which is the `Bool` that comes with the decoded struct.

A struct is a list of fields, each with a store function that may use what the
field holds already.
-/
import JudgePlatform.Library.GoValue

namespace GoStruct

/-- How a value is stored in a variable of type `α`, and whether its type fits. -/
abbrev Decoder (α : Type) := Json → α → α × Bool

/-- A field of a struct `σ`. -/
structure Field (σ : Type) where
  name : String
  store : Decoder σ

/-- The letter that `foldName` maps a character to: besides the ASCII letters the
long s and the Kelvin sign fold to one. -/
def foldChar (c : Char) : Char :=
  if c.toNat = 0x17F then 's' else if c.toNat = 0x212A then 'k' else c.toLower

def foldName (s : String) : List Char := s.toList.map foldChar

/-- The field a key belongs to. -/
def findField {σ : Type} (fields : List (Field σ)) (key : String) : Option (Field σ) :=
  (fields.find? fun f => f.name = key) <|>
    fields.find? fun f => foldName f.name = foldName key

/-- The members stored from the first to the last. -/
def storeMembers {σ : Type} (fields : List (Field σ)) : List (String × Json) → σ → σ × Bool
  | [], s => (s, true)
  | (k, v) :: ms, s =>
    match findField fields k with
    | none => storeMembers fields ms s
    | some f =>
      let r := f.store v s
      let r' := storeMembers fields ms r.1
      (r'.1, r.2 && r'.2)

/-- A struct. -/
def struct {σ : Type} (fields : List (Field σ)) : Decoder σ
  | .null, s => (s, true)
  | .obj ms, s => storeMembers fields ms s
  | _, s => (s, false)

/-! ## Basic types -/

def string : Decoder String
  | .null, s => (s, true)
  | .str t, _ => (t, true)
  | _, s => (s, false)

def bool : Decoder Bool
  | .null, b => (b, true)
  | .bool c, _ => (c, true)
  | _, b => (b, false)

def int : Decoder ℤ
  | .null, n => (n, true)
  | .num m, n =>
    match JsonNumber.parseInt64 m with
    | some k => (k, true)
    | none => (n, false)
  | _, n => (n, false)

def float : Decoder Binary64
  | .null, x => (x, true)
  | .num m, x =>
    match JsonNumber.parseFloat m with
    | some y => (y, true)
    | none => (x, false)
  | _, x => (x, false)

/-- An `interface{}`: what it held is replaced. -/
def any : Decoder GoValue := fun j _ => GoValue.ofJson j

/-- The elements of a slice; those that were there are decoded into. -/
def elements {α : Type} (d : Decoder α) (zero : α) : List Json → List α → List α × Bool
  | [], _ => ([], true)
  | j :: js, old =>
    let r := d j (old.headD zero)
    let r' := elements d zero js old.tail
    (r.1 :: r'.1, r.2 && r'.2)

/-- A slice; `none` is the nil slice. -/
def slice {α : Type} (d : Decoder α) (zero : α) : Decoder (Option (List α))
  | .null, _ => (none, true)
  | .arr js, old =>
    let r := elements d zero js (old.getD [])
    (some r.1, r.2)
  | _, old => (old, false)

/-- A field that is one component of the struct. -/
def field {σ α : Type} (name : String) (get : σ → α) (set : σ → α → σ) (d : Decoder α) :
    Field σ where
  name := name
  store := fun j s => (set s (d j (get s)).1, (d j (get s)).2)

/-- `json.Unmarshal`: a text that is not JSON changes nothing. -/
def unmarshal {σ : Type} (d : Decoder σ) (text : String) (s : σ) : σ × Bool :=
  match Json.parse text with
  | some j => d j s
  | none => (s, false)

end GoStruct
