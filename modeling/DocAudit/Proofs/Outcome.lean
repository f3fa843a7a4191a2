/-!
# Steps that can fail

Steps that follow one another give a result when each of them does, and a list
is worked off without an error when each of its elements is.

**Results.**
* `bind_eq_ok_iff`: two steps, one after the other.
* `mapM_eq_ok_iff`: what a list gives that is worked off without an error.
* `exists_mapM_ok`: when a list is worked off without an error.
* `mapM_map_of_forall`: a list that is worked off in two ways.
-/

namespace DocAudit

section

variable {α β γ ε : Type}

theorem bind_eq_ok_iff {x : Except ε α} {g : α → Except ε β} {b : β} :
    x.bind g = .ok b ↔ ∃ a, x = .ok a ∧ g a = .ok b := by
  cases x with
  | error e =>
      constructor
      · intro h
        cases h
      · rintro ⟨a, ha, _⟩
        cases ha
  | ok a =>
      constructor
      · intro h
        exact ⟨a, rfl, h⟩
      · rintro ⟨c, hc, h⟩
        cases hc
        exact h

/-- A list is worked off without an error exactly when each of its elements is. -/
theorem mapM_eq_ok_iff {f : α → Except ε β} {as : List α} {bs : List β} :
    as.mapM f = .ok bs ↔ as.map f = bs.map .ok := by
  induction as generalizing bs with
  | nil =>
      cases bs with
      | nil => exact ⟨fun _ => rfl, fun _ => rfl⟩
      | cons b bs =>
          constructor
          · intro h
            cases h
          · intro h
            cases h
  | cons a as ih =>
      have hcons : (a :: as).mapM f
          = (f a).bind fun b => (as.mapM f).bind fun rest => .ok (b :: rest) := List.mapM_cons
      rw [hcons, bind_eq_ok_iff]
      constructor
      · rintro ⟨b, hb, h⟩
        obtain ⟨rest, hrest, he⟩ := bind_eq_ok_iff.1 h
        cases he
        rw [List.map_cons, List.map_cons, hb, ih.1 hrest]
      · intro h
        cases bs with
        | nil => cases h
        | cons b bs =>
            rw [List.map_cons, List.map_cons, List.cons.injEq] at h
            exact ⟨b, h.1, bind_eq_ok_iff.2 ⟨bs, ih.2 h.2, rfl⟩⟩

theorem exists_ok_of_mem {f : α → Except ε β} {as : List α} {bs : List β}
    (h : as.mapM f = .ok bs) {a : α} (ha : a ∈ as) : ∃ b ∈ bs, f a = .ok b := by
  have hmem : f a ∈ as.map f := List.mem_map_of_mem ha
  rw [mapM_eq_ok_iff.1 h] at hmem
  obtain ⟨b, hb, he⟩ := List.mem_map.1 hmem
  exact ⟨b, hb, he.symm⟩

theorem exists_of_mem_ok {f : α → Except ε β} {as : List α} {bs : List β}
    (h : as.mapM f = .ok bs) {b : β} (hb : b ∈ bs) : ∃ a ∈ as, f a = .ok b := by
  have hmem : .ok b ∈ bs.map (Except.ok : β → Except ε β) := List.mem_map_of_mem hb
  rw [← mapM_eq_ok_iff.1 h] at hmem
  exact List.mem_map.1 hmem

/-- A list that is worked off with an error has an element with this error. -/
theorem exists_error_of_mapM {f : α → Except ε β} {as : List α} {e : ε}
    (h : as.mapM f = .error e) : ∃ a ∈ as, f a = .error e := by
  induction as with
  | nil => cases h
  | cons a as ih =>
      rw [List.mapM_cons] at h
      cases ha : f a with
      | error first =>
          rw [ha] at h
          cases h
          exact ⟨a, List.mem_cons_self, ha⟩
      | ok b =>
          rw [ha] at h
          cases has : as.mapM f with
          | error rest =>
              rw [has] at h
              cases h
              obtain ⟨c, hc, he⟩ := ih has
              exact ⟨c, List.mem_cons_of_mem a hc, he⟩
          | ok bs =>
              rw [has] at h
              cases h

/-- What each element of a list allows, the whole list allows. -/
theorem exists_mapM_ok {f : α → Except ε β} {as : List α} (h : ∀ a ∈ as, ∃ b, f a = .ok b) :
    ∃ bs, as.mapM f = .ok bs := by
  induction as with
  | nil => exact ⟨[], rfl⟩
  | cons a as ih =>
      obtain ⟨b, hb⟩ := h a List.mem_cons_self
      obtain ⟨bs, hbs⟩ := ih fun c hc => h c (List.mem_cons_of_mem a hc)
      refine ⟨b :: bs, ?_⟩
      rw [mapM_eq_ok_iff] at hbs ⊢
      rw [List.map_cons, List.map_cons, hb, hbs]

/-- A step that only goes on from the result of another one does so all along a list. -/
theorem mapM_map_of_forall {f : α → Except ε β} {g : α → Except ε γ} {next : β → γ}
    (h : ∀ a b, f a = .ok b → g a = .ok (next b)) {as : List α} {bs : List β}
    (hf : as.mapM f = .ok bs) : as.mapM g = .ok (bs.map next) := by
  induction as generalizing bs with
  | nil =>
      cases hf
      rfl
  | cons a as ih =>
      rw [mapM_eq_ok_iff] at hf ⊢
      cases bs with
      | nil => cases hf
      | cons b bs =>
          obtain ⟨hhead, htail⟩ := List.cons.inj hf
          rw [List.map_cons, List.map_cons, List.map_cons, h a b hhead,
            mapM_eq_ok_iff.1 (ih (mapM_eq_ok_iff.2 htail))]

end

end DocAudit
