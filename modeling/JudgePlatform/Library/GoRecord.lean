/-
# Structs with tags

A Go struct whose tags say under which name each field is written and whether an
empty one is left out.  One list of fields gives the documents that a struct is
written as, in JSON and in BSON alike, and the decoder of `json.Unmarshal`.

* `Encoding β` : how a format writes a value.
* `record fields` : the codec of a struct.
* `lookup_members` : which member a written struct has under a name.
-/
import JudgePlatform.Library.GoStruct
import JudgePlatform.Library.GoTime
import JudgePlatform.Library.JsValue

/-- How a format writes values. -/
structure Encoding (β : Type) where
  bool : Bool → β
  int : ℤ → β
  string : String → β
  time : ℤ → β
  null : β
  any : GoValue → β
  array : List β → β
  object : List (String × β) → β

namespace GoRecord

open GoStruct

/-! ## Codecs -/

/-- How the values of a type are written and read, and which are empty. -/
structure Codec (α : Type) where
  encode : {β : Type} → Encoding β → α → β
  isEmpty : α → Bool
  decode : Decoder α

def bool : Codec Bool := ⟨fun E b => E.bool b, fun b => !b, GoStruct.bool⟩

def int : Codec ℤ := ⟨fun E n => E.int n, fun n => n = 0, GoStruct.int⟩

def string : Codec String := ⟨fun E s => E.string s, fun s => s = "", GoStruct.string⟩

/-- An `interface{}`. -/
def any : Codec GoValue := ⟨fun E v => E.any v, fun v => v matches .nil, GoStruct.any⟩

/-- The decoder of a `*time.Time`. -/
def decodeTime : Decoder (Option ℤ)
  | .null, _ => (none, true)
  | .str text, t =>
    match GoTime.parse text with
    | some n => (some n, true)
    | none => (t, false)
  | _, t => (t, false)

/-- A `*time.Time`. -/
def time : Codec (Option ℤ) :=
  ⟨fun E t => t.elim E.null E.time, fun t => t.isNone, decodeTime⟩

/-- A slice that is not told from the nil slice. -/
def slice {α : Type} (c : Codec α) (zero : α) : Codec (List α) where
  encode := fun E xs => E.array (xs.map (c.encode E))
  isEmpty := fun xs => xs.isEmpty
  decode := fun j xs =>
    let r := GoStruct.slice c.decode zero j (some xs)
    (r.1.getD [], r.2)

/-! ## Fields -/

/-- A field of a struct `σ` under its tag. -/
structure TaggedField (σ : Type) where
  name : String
  /-- what is written of the field, unless it is left out -/
  member : {β : Type} → Encoding β → σ → Option β
  store : Decoder σ

/-- A field with a tag such as `json:"name"`. -/
def always {σ α : Type} (name : String) (get : σ → α) (set : σ → α → σ) (c : Codec α) :
    TaggedField σ where
  name := name
  member := fun E s => some (c.encode E (get s))
  store := (field name get set c.decode).store

/-- A field with a tag such as `json:"name,omitempty"`. -/
def omitEmpty {σ α : Type} (name : String) (get : σ → α) (set : σ → α → σ) (c : Codec α) :
    TaggedField σ where
  name := name
  member := fun E s => if c.isEmpty (get s) then none else some (c.encode E (get s))
  store := (field name get set c.decode).store

/-- The members of a written struct. -/
def members {σ β : Type} (fields : List (TaggedField σ)) (E : Encoding β) (s : σ) :
    List (String × β) :=
  fields.filterMap fun f => (f.member E s).map fun v => (f.name, v)

/-- A struct. -/
def record {σ : Type} (fields : List (TaggedField σ)) : Codec σ where
  encode := fun E s => E.object (members fields E s)
  isEmpty := fun _ => false
  decode := struct (fields.map fun f => ⟨f.name, f.store⟩)

/-! ## Which members there are -/

section
variable {σ β : Type} {fields : List (TaggedField σ)} {E : Encoding β} {s : σ}

theorem mem_keys_members {k : String} (h : k ∈ (members fields E s).map Prod.fst) :
    k ∈ fields.map TaggedField.name := by
  obtain ⟨m, hm, rfl⟩ := List.mem_map.mp h
  obtain ⟨f, hf, hsome⟩ := List.mem_filterMap.mp hm
  obtain ⟨v, -, rfl⟩ := Option.map_eq_some_iff.mp hsome
  exact List.mem_map_of_mem hf

theorem nodup_members (h : (fields.map TaggedField.name).Nodup) :
    ((members fields E s).map Prod.fst).Nodup := by
  induction fields with
  | nil => exact List.nodup_nil
  | cons f fields ih =>
    rw [List.map_cons, List.nodup_cons] at h
    unfold members at ih ⊢
    rw [List.filterMap_cons]
    cases f.member E s with
    | none => exact ih h.2
    | some v =>
      show (f.name :: _).Nodup
      exact List.nodup_cons.mpr ⟨fun hmem => h.1 (mem_keys_members hmem), ih h.2⟩

/-- The member of a written struct under the name of a field. -/
theorem lookup_members (h : (fields.map TaggedField.name).Nodup) {f : TaggedField σ}
    (hf : f ∈ fields) : JsValue.lookup (members fields E s) f.name = f.member E s := by
  cases hmember : f.member E s with
  | some v =>
    rw [JsValue.lookup_eq_some_iff (nodup_members h)]
    exact List.mem_filterMap.mpr ⟨f, hf, by rw [hmember]; rfl⟩
  | none =>
    rw [JsValue.lookup_eq_none_iff]
    intro hk
    obtain ⟨m, hm, hname⟩ := List.mem_map.mp hk
    obtain ⟨g, hg, hsome⟩ := List.mem_filterMap.mp hm
    obtain ⟨v, hv, rfl⟩ := Option.map_eq_some_iff.mp hsome
    obtain rfl : g = f := List.inj_on_of_nodup_map h hg hf hname
    rw [hmember] at hv
    cases hv

end

/-! ## Members that are encoded -/

section
variable {ε α : Type}

/-- Members without an error are all written. -/
theorem collectMembers_ok {ms : List (String × Except ε α)} (h : ∀ m ∈ ms, ∃ a, m.2 = .ok a) :
    ∃ js, GoValue.collectMembers ms = .ok js := by
  induction ms with
  | nil => exact ⟨[], rfl⟩
  | cons m ms ih =>
    obtain ⟨k, e⟩ := m
    obtain ⟨a, rfl⟩ : ∃ a, e = .ok a := h (k, e) List.mem_cons_self
    obtain ⟨js, hjs⟩ := ih fun m hm => h m (List.mem_cons_of_mem _ hm)
    exact ⟨(k, a) :: js, by rw [GoValue.collectMembers, hjs]; rfl⟩

theorem lookup_collectMembers {ms : List (String × Except ε α)} {js : List (String × α)}
    (h : GoValue.collectMembers ms = .ok js) (k : String) :
    JsValue.lookup ms k = (JsValue.lookup js k).map .ok := by
  rw [GoValue.eq_of_collectMembers h]
  clear h
  induction js with
  | nil => rfl
  | cons m js ih =>
    rw [List.map_cons, JsValue.lookup_cons, JsValue.lookup_cons, ih]
    split
    · rfl
    · rfl

theorem keys_collectMembers {ms : List (String × Except ε α)} {js : List (String × α)}
    (h : GoValue.collectMembers ms = .ok js) : js.map Prod.fst = ms.map Prod.fst := by
  rw [GoValue.eq_of_collectMembers h, List.map_map]
  rfl

end

/-! ## The formats -/

/-- The error of a `time.Time` that JSON cannot write. -/
def yearError : String :=
  "json: error calling MarshalJSON for type time.Time: " ++
    "Time.MarshalJSON: year outside of range [0,9999]"

/-- `json.Marshal`. -/
def jsonEncoding : Encoding (Except String Json) where
  bool := fun b => .ok (.bool b)
  int := fun n => .ok (.num (JsonNumber.ofInt n))
  string := fun s => .ok (.str s)
  time := fun t =>
    match GoTime.format t with
    | some text => .ok (.str text)
    | none => .error yearError
  null := .ok .null
  any := GoValue.marshal
  array := fun xs => (GoValue.collect xs).map .arr
  object := fun ms => (GoValue.collectMembers ms).map .obj

/-- `bson.Marshal`, and what a program in JavaScript reads back; `bson` is the part of
both drivers that is about values whose type is only known at run time. -/
def bsonEncoding (bson : GoValue → JsValue) : Encoding JsValue where
  bool := .bool
  int := fun n => .num (.ofInt n)
  string := .str
  -- a date has milliseconds
  time := fun t => ((GoTime.format (t / 1000000 * 1000000)).map JsValue.str).getD .null
  null := .null
  any := bson
  array := .arr
  object := .obj

/-! ## Reading what was written -/

section
variable {σ γ : Type} {fields : List (GoStruct.Field σ)} {k : String} {v : Json}
  {ms ms' : List (String × Json)} {s : σ}

/-- A field is found under its own name. -/
theorem findField_name (h : (fields.map GoStruct.Field.name).Nodup) {f : GoStruct.Field σ} (hf : f ∈ fields) :
    findField fields f.name = some f := by
  unfold findField
  cases hfind : fields.find? fun g => g.name = f.name with
  | none =>
    rw [List.find?_eq_none] at hfind
    exact absurd (decide_eq_true rfl) (hfind f hf)
  | some g =>
    have hname : g.name = f.name := by simpa using List.find?_some hfind
    obtain rfl : g = f := List.inj_on_of_nodup_map h (List.mem_of_find?_eq_some hfind) hf hname
    rfl

theorem storeMembers_append :
    storeMembers fields (ms ++ ms') s =
      ((storeMembers fields ms' (storeMembers fields ms s).1).1,
        (storeMembers fields ms s).2 && (storeMembers fields ms' (storeMembers fields ms s).1).2) := by
  induction ms generalizing s with
  | nil => rw [List.nil_append, storeMembers, Bool.true_and]
  | cons m ms ih =>
    obtain ⟨k, v⟩ := m
    rw [List.cons_append, storeMembers, storeMembers]
    cases findField fields k with
    | none => exact ih
    | some f =>
      simp only [ih, Bool.and_assoc]

/-- Members of other fields leave a field alone. -/
theorem proj_storeMembers (proj : σ → γ) (h : (fields.map GoStruct.Field.name).Nodup)
    (hother : ∀ g ∈ fields, g.name ≠ k → ∀ v t, proj (g.store v t).1 = proj t)
    (hms : ∀ m ∈ ms, m.1 ∈ fields.map GoStruct.Field.name ∧ m.1 ≠ k) :
    proj (storeMembers fields ms s).1 = proj s := by
  induction ms generalizing s with
  | nil => rfl
  | cons m ms ih =>
    obtain ⟨⟨hmem, hne⟩, hms⟩ := List.forall_mem_cons.mp hms
    obtain ⟨f, hf, hname⟩ := List.mem_map.mp hmem
    rw [storeMembers, ← hname, findField_name h hf]
    exact (ih hms).trans (hother f hf (hname ▸ hne) _ _)

/-- A member of a field is what is stored there, and it has to fit. -/
theorem proj_storeMembers_of_mem (proj : σ → γ) (h : (fields.map GoStruct.Field.name).Nodup)
    {f : GoStruct.Field σ} (hf : f ∈ fields)
    (hother : ∀ g ∈ fields, g.name ≠ f.name → ∀ v t, proj (g.store v t).1 = proj t)
    (hkeys : (ms.map Prod.fst).Nodup) (hnames : ∀ m ∈ ms, m.1 ∈ fields.map GoStruct.Field.name)
    (hmem : (f.name, v) ∈ ms) :
    ∃ t, proj t = proj s ∧ proj (storeMembers fields ms s).1 = proj (f.store v t).1 ∧
      ((storeMembers fields ms s).2 = true → (f.store v t).2 = true) := by
  obtain ⟨as, bs, rfl⟩ := List.append_of_mem hmem
  rw [List.map_append, List.map_cons, List.nodup_append] at hkeys
  obtain ⟨-, hbs, has⟩ := hkeys
  have hbefore : ∀ m ∈ as, m.1 ∈ fields.map GoStruct.Field.name ∧ m.1 ≠ f.name := by
    intro m hm
    refine ⟨hnames m (List.mem_append_left _ hm), ?_⟩
    exact has m.1 (List.mem_map_of_mem hm) f.name List.mem_cons_self
  have hafter : ∀ m ∈ bs, m.1 ∈ fields.map GoStruct.Field.name ∧ m.1 ≠ f.name := by
    intro m hm
    refine ⟨hnames m (List.mem_append_right _ (List.mem_cons_of_mem _ hm)), fun heq => ?_⟩
    have hkey : m.1 ∈ bs.map Prod.fst := List.mem_map_of_mem hm
    exact (List.nodup_cons.mp hbs).1 (heq ▸ hkey)
  refine ⟨(storeMembers fields as s).1, proj_storeMembers proj h hother hbefore, ?_, ?_⟩
  · rw [storeMembers_append, storeMembers, findField_name h hf]
    exact proj_storeMembers proj h hother hafter
  · rw [storeMembers_append, storeMembers, findField_name h hf]
    simp only [Bool.and_eq_true]
    exact fun hok => hok.2.1

end

section
variable {σ γ : Type} {fields : List (TaggedField σ)} {s : σ} {j : Json}

/-- What `json.Unmarshal` makes of a field of a struct that `json.Marshal` wrote: the member
of the field where there is one, and otherwise what was there before. -/
theorem proj_decode_encode (proj : σ → γ) (h : (fields.map TaggedField.name).Nodup)
    {f : TaggedField σ} (hf : f ∈ fields)
    (hother : ∀ g ∈ fields, g.name ≠ f.name → ∀ v t, proj (g.store v t).1 = proj t)
    (hj : (record fields).encode jsonEncoding s = .ok j) (s₀ : σ) :
    (f.member jsonEncoding s = none ∧ proj ((record fields).decode j s₀).1 = proj s₀) ∨
    ∃ v t, f.member jsonEncoding s = some (.ok v) ∧ proj t = proj s₀ ∧
      proj ((record fields).decode j s₀).1 = proj (f.store v t).1 ∧
      (((record fields).decode j s₀).2 = true → (f.store v t).2 = true) := by
  obtain ⟨js, hjs, rfl⟩ : ∃ js, GoValue.collectMembers (members fields jsonEncoding s) = .ok js ∧
      .obj js = j := by
    change (GoValue.collectMembers (members fields jsonEncoding s)).map Json.obj = .ok j at hj
    cases hc : GoValue.collectMembers (members fields jsonEncoding s) with
    | error e =>
      rw [hc] at hj
      cases hj
    | ok js =>
      rw [hc] at hj
      exact ⟨js, rfl, Except.ok.inj hj⟩
  set raw : List (GoStruct.Field σ) := fields.map fun g => ⟨g.name, g.store⟩ with hraw
  have hrawNames : raw.map GoStruct.Field.name = fields.map TaggedField.name := by
    rw [hraw, List.map_map]
    rfl
  have hrawNodup : (raw.map GoStruct.Field.name).Nodup := hrawNames ▸ h
  have hrawOther : ∀ g ∈ raw, g.name ≠ f.name → ∀ v t, proj (g.store v t).1 = proj t := by
    intro g hg hne
    obtain ⟨g', hg', rfl⟩ := List.mem_map.mp hg
    exact hother g' hg' hne
  have hkeys : js.map Prod.fst = (members fields jsonEncoding s).map Prod.fst :=
    keys_collectMembers hjs
  have hnames : ∀ m ∈ js, m.1 ∈ raw.map GoStruct.Field.name := by
    intro m hm
    rw [hrawNames]
    exact mem_keys_members (hkeys ▸ List.mem_map_of_mem hm)
  have hlookup := lookup_collectMembers hjs f.name
  rw [lookup_members h hf] at hlookup
  show (_ ∧ proj (storeMembers raw js s₀).1 = _) ∨ ∃ v t, _ ∧ _ ∧
    proj (storeMembers raw js s₀).1 = _ ∧ ((storeMembers raw js s₀).2 = true → _)
  cases hmember : JsValue.lookup js f.name with
  | none =>
    rw [hmember] at hlookup
    refine Or.inl ⟨hlookup, proj_storeMembers proj hrawNodup hrawOther fun m hm => ⟨hnames m hm, ?_⟩⟩
    intro heq
    exact JsValue.lookup_eq_none_iff.mp hmember (heq ▸ List.mem_map_of_mem hm)
  | some v =>
    rw [hmember] at hlookup
    have hnodup : (js.map Prod.fst).Nodup := hkeys ▸ nodup_members h
    have hmem : (f.name, v) ∈ js := (JsValue.lookup_eq_some_iff hnodup).mp hmember
    obtain ⟨t, ht, hproj, hok⟩ := proj_storeMembers_of_mem (f := ⟨f.name, f.store⟩) proj hrawNodup
      (List.mem_map_of_mem (f := fun g : TaggedField σ => (⟨g.name, g.store⟩ : GoStruct.Field σ)) hf)
      hrawOther hnodup hnames hmem
    exact Or.inr ⟨v, t, hlookup, ht, hproj, hok⟩

/-- A field that is always written. -/
theorem get_decode_always {α : Type} {name : String} (get : σ → α) {set : σ → α → σ} {c : Codec α}
    (h : (fields.map TaggedField.name).Nodup) (hf : always name get set c ∈ fields)
    (hset : ∀ t x, get (set t x) = x)
    (hother : ∀ g ∈ fields, g.name ≠ name → ∀ v t, get (g.store v t).1 = get t)
    (hj : (record fields).encode jsonEncoding s = .ok j) (s₀ : σ) :
    ∃ v, c.encode jsonEncoding (get s) = .ok v ∧
      get ((record fields).decode j s₀).1 = (c.decode v (get s₀)).1 ∧
      (((record fields).decode j s₀).2 = true → (c.decode v (get s₀)).2 = true) := by
  rcases proj_decode_encode get h hf hother hj s₀ with ⟨hnone, -⟩ | ⟨v, t, hv, ht, hproj, hfits⟩
  · cases hnone
  · refine ⟨v, Option.some.inj hv, ?_, ?_⟩
    · rw [hproj, ← ht]
      exact hset _ _
    · rw [← ht]
      exact hfits

/-- A field that is left out when it is empty. -/
theorem get_decode_omitEmpty {α : Type} {name : String} (get : σ → α) {set : σ → α → σ}
    {c : Codec α} (h : (fields.map TaggedField.name).Nodup)
    (hf : omitEmpty name get set c ∈ fields) (hset : ∀ t x, get (set t x) = x)
    (hother : ∀ g ∈ fields, g.name ≠ name → ∀ v t, get (g.store v t).1 = get t)
    (hj : (record fields).encode jsonEncoding s = .ok j) (s₀ : σ) :
    (c.isEmpty (get s) = true ∧ get ((record fields).decode j s₀).1 = get s₀) ∨
    (c.isEmpty (get s) = false ∧ ∃ v, c.encode jsonEncoding (get s) = .ok v ∧
      get ((record fields).decode j s₀).1 = (c.decode v (get s₀)).1 ∧
      (((record fields).decode j s₀).2 = true → (c.decode v (get s₀)).2 = true)) := by
  rcases proj_decode_encode get h hf hother hj s₀ with ⟨hnone, hproj⟩ | ⟨v, t, hv, ht, hproj, hfits⟩
  · refine Or.inl ⟨?_, hproj⟩
    by_contra hne
    change (if c.isEmpty (get s) then none else some (c.encode jsonEncoding (get s))) = none at hnone
    rw [if_neg hne] at hnone
    cases hnone
  · change (if c.isEmpty (get s) then none else some (c.encode jsonEncoding (get s))) =
      some (.ok v) at hv
    cases hempty : c.isEmpty (get s) with
    | true =>
      rw [hempty, if_pos rfl] at hv
      cases hv
    | false =>
      rw [hempty, if_neg Bool.false_ne_true] at hv
      refine Or.inr ⟨rfl, v, Option.some.inj hv, ?_, ?_⟩
      · rw [hproj, ← ht]
        exact hset _ _
      · rw [← ht]
        exact hfits

end

section
variable {σ : Type} {fields : List (TaggedField σ)} {s : σ} {j : Json}

/-- A field of a struct that was written is read into a struct; without a member it is
left alone. -/
def readField (s : σ) (r : σ × Bool) (f : TaggedField σ) : σ × Bool :=
  match f.member jsonEncoding s with
  | some (.ok v) => ((f.store v r.1).1, r.2 && (f.store v r.1).2)
  | _ => r

/-- **Reading a struct that was written**: its fields are read one after the other. -/
theorem decode_encode (h : (fields.map TaggedField.name).Nodup)
    (hj : (record fields).encode jsonEncoding s = .ok j) (s₀ : σ) :
    (record fields).decode j s₀ = fields.foldl (readField s) (s₀, true) := by
  change (GoValue.collectMembers (members fields jsonEncoding s)).map Json.obj = .ok j at hj
  set raw : List (GoStruct.Field σ) := fields.map fun g => ⟨g.name, g.store⟩ with hraw
  have hrawNodup : (raw.map GoStruct.Field.name).Nodup := by
    rw [hraw, List.map_map]
    exact h
  have hstore : ∀ gs ⊆ fields, ∀ js, GoValue.collectMembers (members gs jsonEncoding s) = .ok js →
      ∀ t b, gs.foldl (readField s) (t, b) =
        ((storeMembers raw js t).1, b && (storeMembers raw js t).2) := by
    intro gs
    induction gs with
    | nil =>
      intro _ js hjs t b
      cases hjs
      rw [storeMembers, Bool.and_true]
      rfl
    | cons g gs ih =>
      intro hsub js hjs t b
      obtain ⟨hg, hgs⟩ := List.cons_subset.mp hsub
      rw [List.foldl_cons]
      unfold readField
      unfold members at hjs ih
      cases hmember : g.member jsonEncoding s with
      | none =>
        rw [List.filterMap_cons_none (by rw [hmember]; rfl)] at hjs
        exact ih hgs js hjs t b
      | some e =>
        rw [List.filterMap_cons_some (by rw [hmember]; rfl)] at hjs
        cases e with
        | error e => cases hjs
        | ok v =>
          rw [GoValue.collectMembers] at hjs
          obtain ⟨js', hjs', rfl⟩ : ∃ js', GoValue.collectMembers _ = .ok js' ∧ _ = js := by
            cases hc : GoValue.collectMembers (gs.filterMap fun f =>
                (f.member jsonEncoding s).map fun v => (f.name, v)) with
            | error e =>
              rw [hc] at hjs
              cases hjs
            | ok js' =>
              rw [hc] at hjs
              exact ⟨js', hc, Except.ok.inj hjs⟩
          have hfind : findField raw g.name = some ⟨g.name, g.store⟩ := findField_name hrawNodup
            (List.mem_map_of_mem (f := fun g : TaggedField σ => (⟨g.name, g.store⟩ : GoStruct.Field σ)) hg)
          rw [storeMembers, hfind]
          simp only
          rw [← Bool.and_assoc]
          exact ih hgs js' hjs' _ _
  cases hjs : GoValue.collectMembers (members fields jsonEncoding s) with
  | error e =>
    rw [hjs] at hj
    cases hj
  | ok js =>
    rw [hjs] at hj
    obtain rfl := Except.ok.inj hj
    rw [hstore fields (List.Subset.refl _) js hjs s₀ true, Bool.true_and]
    rfl

/-- The members of a struct that was written have no errors. -/
theorem member_ok (hj : (record fields).encode jsonEncoding s = .ok j) {f : TaggedField σ}
    (hf : f ∈ fields) {e : Except String Json} (he : f.member jsonEncoding s = some e) :
    ∃ v, e = .ok v := by
  change (GoValue.collectMembers (members fields jsonEncoding s)).map Json.obj = .ok j at hj
  cases hjs : GoValue.collectMembers (members fields jsonEncoding s) with
  | error e =>
    rw [hjs] at hj
    cases hj
  | ok js =>
    have hmem : (f.name, e) ∈ members fields jsonEncoding s :=
      List.mem_filterMap.mpr ⟨f, hf, by rw [he]; rfl⟩
    rw [GoValue.eq_of_collectMembers hjs] at hmem
    obtain ⟨m, -, hm⟩ := List.mem_map.mp hmem
    exact ⟨m.2, (Prod.mk.inj hm).2.symm⟩

variable {α : Type} {name : String} {get : σ → α} {set : σ → α → σ} {c : Codec α} {x' : α} {t : σ}

/-- A value that was written is read as `x'` into a variable that holds `y`. -/
def Codec.Reads (c : Codec α) (y x x' : α) : Prop :=
  ∀ v, c.encode jsonEncoding x = .ok v → c.decode v y = (x', true)

/-- A field that is always written is set to what is read of it. -/
theorem readField_always (hj : (record fields).encode jsonEncoding s = .ok j)
    (hf : always name get set c ∈ fields) (hreads : c.Reads (get t) (get s) x') :
    readField s (t, true) (always name get set c) = (set t x', true) := by
  obtain ⟨v, hv⟩ := member_ok hj hf rfl
  have hmember : (always name get set c).member jsonEncoding s = some (.ok v) :=
    congrArg some hv
  unfold readField
  rw [hmember]
  show (set t (c.decode v (get t)).1, true && (c.decode v (get t)).2) = _
  rw [hreads v hv]
  rfl

/-- So is a field that is left out when it is empty, if it was empty before. -/
theorem readField_omitEmpty_of_written (hj : (record fields).encode jsonEncoding s = .ok j)
    (hf : omitEmpty name get set c ∈ fields)
    (hreads : c.isEmpty (get s) = false → c.Reads (get t) (get s) x')
    (hempty : c.isEmpty (get s) = true → x' = get t) (hset : set t (get t) = t) :
    readField s (t, true) (omitEmpty name get set c) = (set t x', true) := by
  unfold readField
  by_cases hc : c.isEmpty (get s) = true
  · have hmember : (omitEmpty name get set c).member jsonEncoding s = none := if_pos hc
    rw [hmember, hempty hc, hset]
  · have hsome : (omitEmpty name get set c).member jsonEncoding s =
        some (c.encode jsonEncoding (get s)) := if_neg hc
    obtain ⟨v, hv⟩ := member_ok hj hf hsome
    rw [hsome, hv]
    show (set t (c.decode v (get t)).1, true && (c.decode v (get t)).2) = _
    rw [hreads (Bool.eq_false_iff.mpr hc) v hv]
    rfl

theorem readField_omitEmpty (hj : (record fields).encode jsonEncoding s = .ok j)
    (hf : omitEmpty name get set c ∈ fields) (hreads : c.Reads (get t) (get s) x')
    (hempty : c.isEmpty (get s) = true → x' = get t) (hset : set t (get t) = t) :
    readField s (t, true) (omitEmpty name get set c) = (set t x', true) :=
  readField_omitEmpty_of_written hj hf (fun _ => hreads) hempty hset

end

section
variable {ε α γ : Type} {c : Codec α} {zero : α} {xs : List α} {j : Json}

theorem elements_nil (d : Decoder α) (js : List Json) :
    elements d zero js [] = (js.map fun j => (d j zero).1, js.all fun j => (d j zero).2) := by
  induction js with
  | nil => rfl
  | cons j js ih =>
    rw [elements, List.tail_nil, ih]
    rfl

theorem reads_slice {xs' : List α}
    (h : List.Forall₂ (fun x x' => c.Reads zero x x') xs xs') : (slice c zero).Reads [] xs xs' := by
  intro v hv
  change (GoValue.collect (xs.map (c.encode jsonEncoding))).map Json.arr = .ok v at hv
  cases hjs : GoValue.collect (xs.map (c.encode jsonEncoding)) with
  | error e =>
    rw [hjs] at hv
    cases hv
  | ok js =>
    rw [hjs] at hv
    obtain rfl := Except.ok.inj hv
    show ((elements c.decode zero js []).1, (elements c.decode zero js []).2) = _
    have hxs := GoValue.eq_of_collect hjs
    clear hv hjs
    rw [elements_nil]
    dsimp only
    induction h generalizing js with
    | nil =>
      rw [List.map_nil, eq_comm, List.map_eq_nil_iff] at hxs
      rw [hxs]
      rfl
    | @cons x x' xs xs' hx _ ih =>
      obtain ⟨j, js, rfl, hj, hjs⟩ := List.map_eq_cons_iff.mp hxs.symm
      obtain ⟨hvalues, hok⟩ := Prod.mk.inj (ih js hjs.symm)
      rw [List.map_cons, List.all_cons, hx j hj.symm, hvalues, hok]
      rfl

/-- What each element keeps, the elements of a slice keep. -/
theorem map_decode_slice (proj : α → γ)
    (helement : ∀ x j, c.encode jsonEncoding x = .ok j → (c.decode j zero).2 = true →
      proj (c.decode j zero).1 = proj x)
    (hj : (slice c zero).encode jsonEncoding xs = .ok j)
    (hok : ((slice c zero).decode j []).2 = true) :
    ((slice c zero).decode j []).1.map proj = xs.map proj := by
  change (GoValue.collect (xs.map (c.encode jsonEncoding))).map Json.arr = .ok j at hj
  cases hjs : GoValue.collect (xs.map (c.encode jsonEncoding)) with
  | error e =>
    rw [hjs] at hj
    cases hj
  | ok js =>
    rw [hjs] at hj
    obtain rfl := Except.ok.inj hj
    change (elements c.decode zero js []).2 = true at hok
    show (elements c.decode zero js []).1.map proj = _
    rw [elements_nil] at hok ⊢
    have hxs := GoValue.eq_of_collect hjs
    clear hj hjs
    induction js generalizing xs with
    | nil =>
      rw [List.map_nil, List.map_eq_nil_iff] at hxs
      rw [hxs]
      rfl
    | cons j js ih =>
      obtain ⟨x, xs, rfl, hx, hxs⟩ := List.map_eq_cons_iff.mp hxs
      simp only [List.all_cons, Bool.and_eq_true] at hok
      simp only [List.map_cons] at ih ⊢
      rw [helement x j hx hok.1, ih hok.2 hxs]

end

/-- **The members of a struct that was written in JSON** are those of its fields. -/
theorem exists_members {σ : Type} {fields : List (TaggedField σ)} {x : σ} {j : Json}
    (hnames : (fields.map TaggedField.name).Nodup)
    (hj : (record fields).encode jsonEncoding x = .ok j) :
    ∃ js, j = .obj js ∧ (js.map Prod.fst).Nodup ∧
      (∀ f ∈ fields, f.member jsonEncoding x = (JsValue.lookup js f.name).map .ok) ∧
      ∀ k, k ∉ fields.map TaggedField.name → JsValue.lookup js k = none := by
  change (GoValue.collectMembers (members fields jsonEncoding x)).map Json.obj = .ok j at hj
  cases hjs : GoValue.collectMembers (members fields jsonEncoding x) with
  | error e =>
    rw [hjs] at hj
    cases hj
  | ok js =>
    rw [hjs] at hj
    refine ⟨js, (Except.ok.inj hj).symm, ?_, ?_, ?_⟩
    · rw [keys_collectMembers hjs]
      exact nodup_members hnames
    · intro f hf
      rw [← lookup_collectMembers hjs, lookup_members hnames hf]
    · intro k hk
      rw [JsValue.lookup_eq_none_iff, keys_collectMembers hjs]
      exact fun hmem => hk (mem_keys_members hmem)

end GoRecord
