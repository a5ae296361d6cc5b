/-
# Values that were decoded

What `json.Unmarshal` leaves in a variable can be written by `json.Marshal` again: no number
of it is an infinity or a NaN, and no integer of it is too wide.

* `GoValue.Decoded` : the values of an `interface{}` that come from JSON.
* `exists_marshal` : they are written without an error.
* `storeMembers_keeps` : what each field of a struct keeps, decoding keeps.
* `record_ok` : a struct is written without an error if its members are.
-/
import JudgePlatform.Library.GoRecord
import JudgePlatform.Library.StructFields

namespace GoValue

/-- A value with finite numbers, without the types that JSON is not decoded into. -/
inductive Decoded : GoValue → Prop
  | nil : Decoded nil
  | bool (b : Bool) : Decoded (bool b)
  | float {x : Binary64} {n : NumberLit} (h : JsonNumber.formatFloat x = some n) :
      Decoded (float x)
  | string (s : String) : Decoded (string s)
  | slice {xs : List GoValue} (h : ∀ x ∈ xs, Decoded x) : Decoded (slice xs)
  | map {ms : List (String × GoValue)} (h : ∀ m ∈ ms, Decoded m.2) : Decoded (map ms)

/-- A number that is in range has a literal. -/
theorem exists_formatFloat {n : NumberLit} {x : Binary64} (h : JsonNumber.parseFloat n = some x) :
    ∃ m, JsonNumber.formatFloat x = some m := by
  have hround : ∀ q, (∃ b, Binary64.ofRat q = .inf b) ∨ ∃ r hr, Binary64.ofRat q = .finite r hr := by
    intro q
    unfold Binary64.ofRat
    split_ifs with h
    · exact Or.inr ⟨_, Binary64.representable_nearest h, rfl⟩
    · exact Or.inl ⟨_, rfl⟩
  unfold JsonNumber.parseFloat at h
  rcases hround (JsonNumber.readNumber n.text) with ⟨b, hq⟩ | ⟨r, hr, hq⟩
  · rw [hq] at h
    cases h
  · rw [hq] at h
    simp only at h
    split_ifs at h
    · obtain rfl := Option.some.inj h
      exact ⟨_, rfl⟩
    · obtain rfl := Option.some.inj h
      exact ⟨_, rfl⟩

theorem decoded_setKey {ms : List (String × GoValue)} {v : GoValue} (k : String)
    (hms : ∀ m ∈ ms, Decoded m.2) (hv : Decoded v) : ∀ m ∈ setKey ms k v, Decoded m.2 := by
  induction ms with
  | nil =>
    rw [setKey, List.forall_mem_singleton]
    exact hv
  | cons m ms ih =>
    obtain ⟨hm, hms⟩ := List.forall_mem_cons.mp hms
    rw [setKey]
    split_ifs
    · exact List.forall_mem_cons.mpr ⟨hv, hms⟩
    · exact List.forall_mem_cons.mpr ⟨hm, ih hms⟩

mutual

/-- **What is decoded**, whether or not its numbers were in range. -/
theorem decoded_ofJson (j : Json) : Decoded (ofJson j).1 := by
  match j with
  | .null =>
    rw [ofJson.eq_def]
    exact .nil
  | .bool b =>
    rw [ofJson.eq_def]
    exact .bool b
  | .num n =>
    rw [ofJson.eq_def]
    simp only
    cases hx : JsonNumber.parseFloat n with
    | none => exact .nil
    | some x =>
      obtain ⟨m, hm⟩ := exists_formatFloat hx
      exact .float hm
  | .str s =>
    rw [ofJson.eq_def]
    exact .string s
  | .arr xs =>
    rw [ofJson.eq_def]
    exact .slice (decoded_ofElements xs)
  | .obj ms =>
    rw [ofJson.eq_def]
    exact .map (decoded_ofMembers ms [] fun m h => absurd h List.not_mem_nil)

theorem decoded_ofElements (js : List Json) : ∀ x ∈ (ofElements js).1, Decoded x := by
  match js with
  | [] =>
    rw [ofElements]
    exact fun x h => absurd h List.not_mem_nil
  | j :: js =>
    rw [ofElements]
    exact List.forall_mem_cons.mpr ⟨decoded_ofJson j, decoded_ofElements js⟩

theorem decoded_ofMembers (ms : List (String × Json)) (acc : List (String × GoValue))
    (hacc : ∀ m ∈ acc, Decoded m.2) : ∀ m ∈ (ofMembers ms acc).1, Decoded m.2 := by
  match ms with
  | [] =>
    rw [ofMembers]
    exact hacc
  | (k, j) :: ms =>
    rw [ofMembers]
    exact decoded_ofMembers ms _ (decoded_setKey k hacc (decoded_ofJson j))

end

theorem Decoded.sized {v : GoValue} (h : Decoded v) : Sized v := by
  induction h with
  | nil => exact .nil
  | bool b => exact .bool b
  | float _ => exact .float _
  | string s => exact .string s
  | slice _ ih => exact .slice ih
  | map _ ih => exact .map ih

/-- Encodings without an error are collected without one. -/
theorem exists_collect {ε α : Type} {rs : List (Except ε α)} (h : ∀ r ∈ rs, ∃ a, r = .ok a) :
    ∃ as, collect rs = .ok as := by
  induction rs with
  | nil => exact ⟨[], rfl⟩
  | cons r rs ih =>
    obtain ⟨⟨a, rfl⟩, hrs⟩ := List.forall_mem_cons.mp h
    obtain ⟨as, has⟩ := ih hrs
    refine ⟨a :: as, ?_⟩
    rw [collect, has]
    rfl

/-- **What was decoded is written** without an error. -/
theorem Decoded.exists_marshal {v : GoValue} (h : Decoded v) : ∃ j, v.marshal = .ok j := by
  induction h with
  | nil =>
    rw [marshal]
    exact ⟨_, rfl⟩
  | bool b =>
    rw [marshal]
    exact ⟨_, rfl⟩
  | string s =>
    rw [marshal]
    exact ⟨_, rfl⟩
  | float hx =>
    rw [marshal, marshalFloat, hx]
    exact ⟨_, rfl⟩
  | @slice xs _ ih =>
    have hall : ∀ r ∈ xs.map marshal, ∃ j, r = .ok j := by
      intro r hr
      obtain ⟨x, hx, rfl⟩ := List.mem_map.mp hr
      exact ih x hx
    obtain ⟨js, hjs⟩ := exists_collect hall
    rw [marshal, marshalElements_eq, hjs]
    exact ⟨_, rfl⟩
  | @map ms _ ih =>
    have hall : ∀ m ∈ sortMembers (marshalMembers ms), ∃ j, m.2 = .ok j := by
      intro m hm
      unfold sortMembers at hm
      rw [List.mem_insertionSort, marshalMembers_eq] at hm
      obtain ⟨n, hn, rfl⟩ := List.mem_map.mp hm
      exact ih n hn
    obtain ⟨js, hjs⟩ := GoRecord.collectMembers_ok hall
    rw [marshal, hjs]
    exact ⟨_, rfl⟩

end GoValue

namespace GoRecord

open GoStruct

/-! ## Codecs -/

/-- A `float64`. -/
def float : Codec Binary64 :=
  ⟨fun E x => E.any (.float x), fun x => x.toRat = some 0, GoStruct.float⟩

/-- A slice; `none` is the nil slice. -/
def nilableSlice {α : Type} (c : Codec α) (zero : α) : Codec (Option (List α)) where
  encode := fun E xs => xs.elim E.null fun xs => E.array (xs.map (c.encode E))
  isEmpty := fun xs => (xs.getD []).isEmpty
  decode := GoStruct.slice c.decode zero

section

variable {α σ : Type} {c : Codec α} {zero : α}

theorem reads_float {x : Binary64} {n : NumberLit} (h : JsonNumber.formatFloat x = some n)
    (y : Binary64) : float.Reads y x x := by
  intro v hv
  change GoValue.marshal (.float x) = .ok v at hv
  rw [GoValue.marshal, GoValue.marshalFloat, h] at hv
  obtain rfl := Except.ok.inj hv
  show GoStruct.float (.num n) y = (x, true)
  unfold GoStruct.float
  simp only [JsonNumber.parseFloat_formatFloat h]

/-- A slice is read as its elements are; the nil slice stays one. -/
theorem reads_nilableSlice {f : α → α} {xs : Option (List α)}
    (h : ∀ ys, xs = some ys → ∀ y ∈ ys, c.Reads zero y (f y)) :
    (nilableSlice c zero).Reads none xs (xs.map (List.map f)) := by
  intro v hv
  cases xs with
  | none =>
    obtain rfl := Except.ok.inj hv
    rfl
  | some ys =>
    have hreads : List.Forall₂ (fun y y' => c.Reads zero y y') ys (ys.map f) := by
      rw [List.forall₂_map_right_iff, List.forall₂_same]
      exact h ys rfl
    have hslice := reads_slice hreads v hv
    have hnil : ∀ r : Option (List α) × Bool, r.1.isSome = true →
        (r.1.getD [], r.2) = (ys.map f, true) → r = (some (ys.map f), true) := by
      rintro ⟨_ | zs, b⟩ hsome heq
      · cases hsome
      · obtain ⟨rfl, rfl⟩ := Prod.mk.inj heq
        rfl
    cases v with
    | arr js => exact hnil _ rfl hslice
    | _ =>
      change (GoValue.collect _).map Json.arr = .ok _ at hv
      cases hjs : GoValue.collect (ys.map (c.encode jsonEncoding)) with
      | error e =>
        rw [hjs] at hv
        cases hv
      | ok js =>
        rw [hjs] at hv
        cases hv

/-- A struct whose members have no errors is written. -/
theorem record_ok {fields : List (TaggedField σ)} {s : σ}
    (h : ∀ f ∈ fields, ∀ e, f.member jsonEncoding s = some e → ∃ v, e = .ok v) :
    ∃ j, (record fields).encode jsonEncoding s = .ok j := by
  have hall : ∀ m ∈ members fields jsonEncoding s, ∃ v, m.2 = .ok v := by
    intro m hm
    obtain ⟨f, hf, hsome⟩ := List.mem_filterMap.mp hm
    obtain ⟨e, he, rfl⟩ := Option.map_eq_some_iff.mp hsome
    exact h f hf e he
  obtain ⟨js, hjs⟩ := collectMembers_ok hall
  refine ⟨.obj js, ?_⟩
  show (GoValue.collectMembers _).map Json.obj = _
  rw [hjs]
  rfl

/-- What the store of each field keeps, decoding keeps. -/
theorem storeMembers_keeps {K : σ → Prop} {fields : List (GoStruct.Field σ)}
    (h : ∀ f ∈ fields, ∀ j s, K s → K (f.store j s).1) (ms : List (String × Json)) {s : σ}
    (hs : K s) : K (storeMembers fields ms s).1 := by
  induction ms generalizing s with
  | nil => exact hs
  | cons m ms ih =>
    obtain ⟨k, j⟩ := m
    rw [storeMembers]
    cases hf : findField fields k with
    | none => exact ih hs
    | some f => exact ih (h f (mem_of_findField hf |>.1) j s hs)

/-- What a decoder of elements keeps, the decoder of slices keeps of each element. -/
theorem elements_keeps {K : α → Prop} {d : Decoder α} (hd : ∀ j x, K x → K (d j x).1)
    (hzero : K zero) (js : List Json) {old : List α} (hold : ∀ x ∈ old, K x) :
    ∀ x ∈ (elements d zero js old).1, K x := by
  induction js generalizing old with
  | nil => exact fun x h => absurd h List.not_mem_nil
  | cons j js ih =>
    rw [elements]
    cases old with
    | nil => exact List.forall_mem_cons.mpr ⟨hd j zero hzero, ih hold⟩
    | cons x old =>
      obtain ⟨hx, hold⟩ := List.forall_mem_cons.mp hold
      exact List.forall_mem_cons.mpr ⟨hd j x hx, ih hold⟩

theorem slice_keeps {K : α → Prop} {d : Decoder α} (hd : ∀ j x, K x → K (d j x).1)
    (hzero : K zero) (j : Json) {old : Option (List α)}
    (hold : ∀ xs, old = some xs → ∀ x ∈ xs, K x) :
    ∀ xs, (GoStruct.slice d zero j old).1 = some xs → ∀ x ∈ xs, K x := by
  intro xs hxs
  unfold GoStruct.slice at hxs
  cases j with
  | null => cases hxs
  | arr js =>
    obtain rfl := Option.some.inj hxs
    apply elements_keeps hd hzero
    cases old with
    | none => exact fun x h => absurd h List.not_mem_nil
    | some ys => exact hold ys rfl
  | _ => exact hold xs hxs

/-- A field is written if its value is. -/
theorem always_ok {name : String} {get : σ → α} {set : σ → α → σ} {s : σ}
    (h : ∃ v, c.encode jsonEncoding (get s) = .ok v) :
    ∀ e, (always name get set c).member jsonEncoding s = some e → ∃ v, e = .ok v := by
  intro e he
  obtain rfl := Option.some.inj he
  exact h

theorem omitEmpty_ok {name : String} {get : σ → α} {set : σ → α → σ} {s : σ}
    (h : ∃ v, c.encode jsonEncoding (get s) = .ok v) :
    ∀ e, (omitEmpty name get set c).member jsonEncoding s = some e → ∃ v, e = .ok v := by
  intro e he
  change (if c.isEmpty (get s) then none else some (c.encode jsonEncoding (get s))) = some e at he
  split_ifs at he
  obtain rfl := Option.some.inj he
  exact h

theorem nilableSlice_ok {xs : Option (List α)}
    (h : ∀ ys, xs = some ys → ∀ y ∈ ys, ∃ v, c.encode jsonEncoding y = .ok v) :
    ∃ v, (nilableSlice c zero).encode jsonEncoding xs = .ok v := by
  cases xs with
  | none => exact ⟨_, rfl⟩
  | some ys =>
    have hall : ∀ r ∈ ys.map (c.encode jsonEncoding), ∃ v, r = .ok v := by
      intro r hr
      obtain ⟨y, hy, rfl⟩ := List.mem_map.mp hr
      exact h ys rfl y hy
    obtain ⟨js, hjs⟩ := GoValue.exists_collect hall
    refine ⟨.arr js, ?_⟩
    show (GoValue.collect _).map Json.arr = _
    rw [hjs]
    rfl

end

end GoRecord
