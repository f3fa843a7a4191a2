import DocAudit.Json
import DocAudit.Proofs.Text.Control
import Mathlib.Tactic.SplitIfs

/-!
# The JSON value behind a text

A pretty text tells the value that it is the form of.  Each part of it also
tells where it ends: a character of a string by its escape, a string by its
closing quote, a number by what follows it, and a row of items or members by
the line break that stands where a comma would go on with it.  The lemmas here
therefore speak of parts with a rest behind them.

**Results.**
* `unescape?_escape`: reading a character back.
* `quote_append_inj`: the string that opens a text.
* `pretty_append_inj`: the value that opens a text.
* `pretty_injective`: the value of a whole text.
* `notMem_pretty`: a pretty text has no control characters but its line breaks.
-/

namespace DocAudit

namespace Json

/-- Reads what follows the backslash of an escape. -/
def readEscape? : Text → Option (Char × Text)
  | 'u' :: '0' :: '0' :: high :: low :: rest =>
      (Text.hexNumber? [high, low]).map fun n => (Char.ofNat n, rest)
  | 'n' :: rest => some ('\n', rest)
  | 'r' :: rest => some ('\r', rest)
  | 't' :: rest => some ('\t', rest)
  | 'b' :: rest => some (Char.ofNat 8, rest)
  | 'f' :: rest => some (Char.ofNat 12, rest)
  | c :: rest => some (c, rest)
  | [] => none

/-- Reads the character that the content of a string starts with. -/
def unescape? : Text → Option (Char × Text)
  | [] => none
  | c :: rest => if c = '\\' then readEscape? rest else some (c, rest)

theorem hexNumber?_hexDigit : ∀ n < 32,
    Text.hexNumber? [hexDigit (n / 16), hexDigit (n % 16)] = some n := by
  decide

theorem unescape?_escape (c : Char) (rest : Text) :
    unescape? (escape c ++ rest) = some (c, rest) := by
  unfold escape
  split_ifs with hquote hbackslash hnewline hreturn htab hback hfeed hcontrol
  · rw [hquote]
    rfl
  · rw [hbackslash]
    rfl
  · rw [hnewline]
    rfl
  · rw [hreturn]
    rfl
  · rw [htab]
    rfl
  · rw [← Char.ofNat_toNat c, hback]
    rfl
  · rw [← Char.ofNat_toNat c, hfeed]
    rfl
  · change (Text.hexNumber? [hexDigit (c.toNat / 16), hexDigit (c.toNat % 16)]).map
      (fun n => (Char.ofNat n, rest)) = some (c, rest)
    rw [hexNumber?_hexDigit c.toNat hcontrol, Option.map_some, Char.ofNat_toNat]
  · exact if_neg hbackslash

theorem escape_append_inj {c d : Char} {s t : Text} (h : escape c ++ s = escape d ++ t) :
    c = d ∧ s = t := by
  have hread := unescape?_escape c s
  rw [h, unescape?_escape, Option.some.injEq, Prod.mk.injEq] at hread
  exact ⟨hread.1.symm, hread.2.symm⟩

/-- No escape starts with the quote that closes a string. -/
theorem escape_append_ne_quote (c : Char) (s t : Text) : escape c ++ s ≠ '"' :: t := by
  intro h
  have hread := unescape?_escape c s
  rw [h, unescape?, if_neg (by decide), Option.some.injEq, Prod.mk.injEq] at hread
  rw [← hread.1] at h
  exact absurd (List.cons.inj h).1 (by decide)

theorem escapes_append_inj {a b u v : Text}
    (h : a.flatMap escape ++ '"' :: u = b.flatMap escape ++ '"' :: v) : a = b ∧ u = v := by
  induction a generalizing b with
  | nil =>
      cases b with
      | nil => exact ⟨rfl, (List.cons.inj h).2⟩
      | cons d b =>
          rw [List.flatMap_cons, List.append_assoc] at h
          exact absurd h.symm (escape_append_ne_quote d _ _)
  | cons c a ih =>
      rw [List.flatMap_cons, List.append_assoc] at h
      cases b with
      | nil => exact absurd h (escape_append_ne_quote c _ _)
      | cons d b =>
          rw [List.flatMap_cons, List.append_assoc] at h
          obtain ⟨rfl, hrest⟩ := escape_append_inj h
          obtain ⟨rfl, rfl⟩ := ih hrest
          exact ⟨rfl, rfl⟩

/-- A string ends at its closing quote. -/
theorem quote_append_inj {a b u v : Text} (h : quote a ++ u = quote b ++ v) : a = b ∧ u = v := by
  simp only [quote, List.append_assoc, List.singleton_append] at h
  exact escapes_append_inj (List.cons.inj h).2

/-- The character that the pretty form of a value starts with, a digit being taken for zero. -/
def opening : Json → Char
  | nat _ => '0'
  | str _ => '"'
  | arr _ => '['
  | obj _ => '{'

theorem exists_pretty_cons (level : Nat) (value : Json) :
    ∃ c rest, pretty level value = c :: rest ∧ (if c.isDigit then '0' else c) = value.opening := by
  cases value with
  | nat n =>
      obtain ⟨d, ds, h, hd⟩ := Text.exists_ofNat_cons n
      refine ⟨d, ds, ?_, if_pos hd⟩
      rw [pretty, h]
  | str s => exact ⟨'"', _, by rw [pretty]; rfl, rfl⟩
  | arr items =>
      cases items with
      | nil => exact ⟨'[', _, by rw [pretty]; rfl, rfl⟩
      | cons item items => exact ⟨'[', _, by rw [pretty]; rfl, rfl⟩
  | obj members =>
      rcases members with _ | ⟨⟨key, value⟩, members⟩
      · exact ⟨'{', ['}'], by rw [pretty], rfl⟩
      · exact ⟨'{', _, by rw [pretty]; rfl, rfl⟩

theorem opening_eq_of_pretty_append {level : Nat} {v w : Json} {s t : Text}
    (h : pretty level v ++ s = pretty level w ++ t) : v.opening = w.opening := by
  obtain ⟨c, rest, hv, hc⟩ := exists_pretty_cons level v
  obtain ⟨d, rest', hw, hd⟩ := exists_pretty_cons level w
  rw [hv, hw] at h
  rw [← hc, ← hd, (List.cons.inj h).1]

theorem endsNumber_prettyItems {level : Nat} {t : Text} (ht : Text.EndsNumber t)
    (items : List Json) : Text.EndsNumber (prettyItems level items ++ t) := by
  cases items with
  | nil =>
      rw [prettyItems]
      exact ht
  | cons item items =>
      rw [prettyItems]
      exact Text.endsNumber_cons rfl _

theorem endsNumber_prettyMembers {level : Nat} {t : Text} (ht : Text.EndsNumber t)
    (members : List (Text × Json)) : Text.EndsNumber (prettyMembers level members ++ t) := by
  rcases members with _ | ⟨⟨key, value⟩, members⟩
  · rw [prettyMembers]
    exact ht
  · rw [prettyMembers]
    exact Text.endsNumber_cons rfl _

/-- The row of the items of an array, as if all of them stood behind a comma. -/
theorem itemsRow_of_pretty {level : Nat} {item other : Json} {items others : List Json}
    {s t : Text}
    (h : pretty level (arr (item :: items)) ++ s = pretty level (arr (other :: others)) ++ t) :
    prettyItems (level + 1) (item :: items)
        ++ '\n' :: (List.replicate (2 * level) ' ' ++ (']' :: s))
      = prettyItems (level + 1) (other :: others)
        ++ '\n' :: (List.replicate (2 * level) ' ' ++ (']' :: t)) := by
  rw [pretty, pretty] at h
  rw [prettyItems, prettyItems]
  simp only [newLine, List.append_assoc, List.cons_append, List.nil_append] at h ⊢
  exact congrArg (',' :: ·) (List.cons.inj h).2

theorem membersRow_of_pretty {level : Nat} {member other : Text × Json}
    {members others : List (Text × Json)} {s t : Text}
    (h : pretty level (obj (member :: members)) ++ s
      = pretty level (obj (other :: others)) ++ t) :
    prettyMembers (level + 1) (member :: members)
        ++ '\n' :: (List.replicate (2 * level) ' ' ++ ('}' :: s))
      = prettyMembers (level + 1) (other :: others)
        ++ '\n' :: (List.replicate (2 * level) ' ' ++ ('}' :: t)) := by
  rw [pretty, pretty] at h
  rw [prettyMembers, prettyMembers]
  simp only [newLine, List.append_assoc, List.cons_append, List.nil_append] at h ⊢
  exact congrArg (',' :: ·) (List.cons.inj h).2

mutual

/-- The value that opens a text, and the rest behind it. -/
theorem pretty_append_inj (level : Nat) (v w : Json) {s t : Text} (hs : Text.EndsNumber s)
    (ht : Text.EndsNumber t) (h : pretty level v ++ s = pretty level w ++ t) : v = w ∧ s = t := by
  have hopening := opening_eq_of_pretty_append h
  match v, w with
  | nat m, nat n =>
      rw [pretty, pretty] at h
      obtain ⟨rfl, rfl⟩ := Text.ofNat_append_inj hs ht h
      exact ⟨rfl, rfl⟩
  | str a, str b =>
      rw [pretty, pretty] at h
      obtain ⟨rfl, rfl⟩ := quote_append_inj h
      exact ⟨rfl, rfl⟩
  | arr [], arr [] =>
      rw [pretty] at h
      exact ⟨rfl, List.append_cancel_left h⟩
  | arr [], arr (other :: others) | arr (item :: items), arr [] =>
      rw [pretty, pretty] at h
      exact absurd (List.cons.inj (List.cons.inj h).2).1 (by decide)
  | arr (item :: items), arr (other :: others) =>
      obtain ⟨hitems, hrest⟩ := prettyItems_append_inj (level + 1) (item :: items)
        (other :: others) (itemsRow_of_pretty h)
      exact ⟨congrArg arr hitems, (List.cons.inj (List.append_cancel_left hrest)).2⟩
  | obj [], obj [] =>
      rw [pretty] at h
      exact ⟨rfl, List.append_cancel_left h⟩
  | obj [], obj (other :: others) | obj (member :: members), obj [] =>
      rw [pretty, pretty] at h
      exact absurd (List.cons.inj (List.cons.inj h).2).1 (by decide)
  | obj (member :: members), obj (other :: others) =>
      obtain ⟨hmembers, hrest⟩ := prettyMembers_append_inj (level + 1) (member :: members)
        (other :: others) (membersRow_of_pretty h)
      exact ⟨congrArg obj hmembers, (List.cons.inj (List.append_cancel_left hrest)).2⟩
  | nat _, str _ | nat _, arr _ | nat _, obj _ | str _, nat _ | str _, arr _ | str _, obj _
  | arr _, nat _ | arr _, str _ | arr _, obj _ | obj _, nat _ | obj _, str _ | obj _, arr _ =>
      exact absurd hopening (by simp [opening])

/-- Items end where a line break stands in the place of a comma. -/
theorem prettyItems_append_inj (level : Nat) (items others : List Json) {s t : Text}
    (h : prettyItems level items ++ '\n' :: s = prettyItems level others ++ '\n' :: t) :
    items = others ∧ s = t := by
  match items, others with
  | [], [] =>
      rw [prettyItems] at h
      exact ⟨rfl, (List.cons.inj h).2⟩
  | [], other :: others => 
      rw [prettyItems, prettyItems] at h
      exact absurd (List.cons.inj h).1 (by decide)
  | item :: items, [] =>
      rw [prettyItems, prettyItems] at h
      exact absurd (List.cons.inj h).1 (by decide)
  | item :: items, other :: others => 
      rw [prettyItems, prettyItems] at h
      simp only [List.append_assoc] at h
      have hitem := List.append_cancel_left (List.append_cancel_left h)
      have hend : ∀ u, Text.EndsNumber ('\n' :: u) := Text.endsNumber_cons rfl
      obtain ⟨rfl, hrest⟩ := pretty_append_inj level item other
        (endsNumber_prettyItems (hend s) items) (endsNumber_prettyItems (hend t) others) hitem
      obtain ⟨rfl, rfl⟩ := prettyItems_append_inj level items others hrest
      exact ⟨rfl, rfl⟩

/-- Members end where a line break stands in the place of a comma. -/
theorem prettyMembers_append_inj (level : Nat) (members others : List (Text × Json)) {s t : Text}
    (h : prettyMembers level members ++ '\n' :: s = prettyMembers level others ++ '\n' :: t) :
    members = others ∧ s = t := by
  match members, others with
  | [], [] =>
      rw [prettyMembers] at h
      exact ⟨rfl, (List.cons.inj h).2⟩
  | [], (key, value) :: others =>
      rw [prettyMembers, prettyMembers] at h
      exact absurd (List.cons.inj h).1 (by decide)
  | (key, value) :: members, [] =>
      rw [prettyMembers, prettyMembers] at h
      exact absurd (List.cons.inj h).1 (by decide)
  | (key, value) :: members, (key', value') :: others =>
      rw [prettyMembers, prettyMembers] at h
      simp only [List.append_assoc] at h
      obtain ⟨rfl, hcolon⟩ := quote_append_inj (List.append_cancel_left (List.append_cancel_left h))
      have hend : ∀ u, Text.EndsNumber ('\n' :: u) := Text.endsNumber_cons rfl
      obtain ⟨rfl, hrest⟩ := pretty_append_inj level value value'
        (endsNumber_prettyMembers (hend s) members) (endsNumber_prettyMembers (hend t) others)
        (List.append_cancel_left hcolon)
      obtain ⟨rfl, rfl⟩ := prettyMembers_append_inj level members others hrest
      exact ⟨rfl, rfl⟩

end

theorem lacksControls_hexEscape :
    ∀ n < 32,
      Text.lacksControls (text "\\u00" ++ [hexDigit (n / 16), hexDigit (n % 16)]) = true := by
  decide

/-- The written form of a character has no control characters. -/
theorem lacksControls_escape (c : Char) : Text.lacksControls (escape c) = true := by
  unfold escape
  split_ifs with _ _ _ _ _ _ _ hcontrol
  -- The first seven branches give escapes of two characters.
  iterate 7
    · rfl
  · exact lacksControls_hexEscape c.toNat hcontrol
  · exact Text.lacksControls_iff.2 (List.forall_mem_singleton.2 (Nat.le_of_not_lt hcontrol))

theorem lacksControls_quote (s : Text) : Text.lacksControls (quote s) = true := by
  refine Text.lacksControls_iff.2 fun d hd => ?_
  simp only [quote, List.mem_append, List.mem_singleton] at hd
  rcases hd with (rfl | hd) | rfl
  · decide
  · obtain ⟨c, _, hd⟩ := List.mem_flatMap.1 hd
    exact Text.lacksControls_iff.1 (lacksControls_escape c) d hd
  · decide

section

variable {c : Char} (hc : c.toNat < 32) (hnewline : c ≠ '\n')
include hc hnewline

theorem notMem_newLine (level : Nat) : c ∉ newLine level := by
  rw [newLine, List.mem_cons, not_or]
  refine ⟨hnewline, Text.notMem_of_lacksControls hc (Text.lacksControls_iff.2 fun d hd => ?_)⟩
  rw [List.eq_of_mem_replicate hd]
  decide

mutual

/-- A pretty text has no control characters but its line breaks. -/
theorem notMem_pretty (level : Nat) (value : Json) : c ∉ pretty level value := by
  have hwords := fun t => Text.notMem_of_lacksControls hc (t := t)
  have hbreak := notMem_newLine hc hnewline
  match value with
  | nat n =>
      rw [pretty]
      exact hwords _ (Text.lacksControls_ofNat n)
  | str s =>
      rw [pretty]
      exact hwords _ (lacksControls_quote s)
  | arr [] =>
      rw [pretty]
      exact hwords _ rfl
  | arr (item :: items) =>
      have hitem := notMem_pretty (level + 1) item
      have hitems := notMem_prettyItems (level + 1) items
      simp only [pretty, List.mem_append, hbreak, hitem, hitems, or_false, not_or]
      exact ⟨hwords _ rfl, hwords _ rfl⟩
  | obj [] =>
      rw [pretty]
      exact hwords _ rfl
  | obj ((key, value) :: members) =>
      have hkey := Text.notMem_of_lacksControls hc (lacksControls_quote key)
      have hvalue := notMem_pretty (level + 1) value
      have hmembers := notMem_prettyMembers (level + 1) members
      simp only [pretty, List.mem_append, hbreak, hkey, hvalue, hmembers, or_false, not_or]
      exact ⟨⟨hwords _ rfl, hwords _ rfl⟩, hwords _ rfl⟩

theorem notMem_prettyItems (level : Nat) (items : List Json) : c ∉ prettyItems level items := by
  match items with
  | [] =>
      rw [prettyItems]
      exact List.not_mem_nil
  | item :: items =>
      have hitem := notMem_pretty level item
      have hitems := notMem_prettyItems level items
      have hbreak := notMem_newLine hc hnewline level
      simp only [prettyItems, List.mem_append, hbreak, hitem, hitems, or_false]
      exact Text.notMem_of_lacksControls hc rfl

theorem notMem_prettyMembers (level : Nat) (members : List (Text × Json)) :
    c ∉ prettyMembers level members := by
  match members with
  | [] =>
      rw [prettyMembers]
      exact List.not_mem_nil
  | (key, value) :: members =>
      have hkey := Text.notMem_of_lacksControls hc (lacksControls_quote key)
      have hvalue := notMem_pretty level value
      have hmembers := notMem_prettyMembers level members
      have hbreak := notMem_newLine hc hnewline level
      simp only [prettyMembers, List.mem_append, hbreak, hkey, hvalue, hmembers, or_false, not_or]
      exact ⟨Text.notMem_of_lacksControls hc rfl, Text.notMem_of_lacksControls hc rfl⟩

end

end

end Json

end DocAudit
