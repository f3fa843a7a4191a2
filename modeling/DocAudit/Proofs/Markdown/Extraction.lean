import DocAudit.Proofs.Markdown.Placed

/-!
# The links of a written body

The two searches for targets each find their own pieces, at the places where
the pieces stand once the code is erased.  One step lemma for each kind of
piece says what a search does with it, whatever text follows.

**Results.**
* `inlineTargetsFrom_visible`, `definitionsFrom_visible`: what each search finds.
* `links_writeAll`: the links of a body that is written from pieces.
* `links_loneLink`: the link of a body that is nothing but a link.
-/

namespace DocAudit
namespace Markdown
namespace Piece

variable {piece : Piece} {pieces : List Piece} {label target : Text} {destination : Destination}
  {title : Option Title}

theorem afterLinkEnd?_writeTitle (h : ∀ t ∈ title, IsTitle t)
    (rest : Text) : afterLinkEnd? (writeTitle title ++ ')' :: rest) = some rest := by
  cases title with
  | none => exact afterLinkEnd?_parenthesis rest
  | some title => exact Title.afterLinkEnd?_write (h title rfl).1 rest

theorem endsBare_writeTitle (title : Option Title) (rest : Text) :
    EndsBare (writeTitle title ++ ')' :: rest) := by
  cases title with
  | none => exact Or.inr ⟨')', rest, rfl, by decide, by decide⟩
  | some title => exact Or.inr ⟨' ', _, rfl, by decide, by decide⟩

/-- The target of an inline link is read from the end of its label. -/
theorem readInline?_linkEnd
    (hdestination : IsDestination destination) (htitle : ∀ t ∈ title, IsTitle t) (rest : Text) :
    inlineLink.read? (']' :: '(' :: (destination.write ++ writeTitle title ++ [')'] ++ rest))
      = some ((destination.gap, destination.target), rest) := by
  have hend := afterLinkEnd?_writeTitle htitle rest
  have hwrite : ']' :: '(' :: (destination.write ++ writeTitle title ++ [')'] ++ rest)
      = text "](" ++ (destination.write ++ (writeTitle title ++ ')' :: rest)) := by
    rw [List.append_assoc, List.append_assoc]
    rfl
  rw [inlineLink_read?, hwrite]
  cases destination with
  | angled target =>
      have hinner : ∀ c ∈ target, isAngledChar c = true := fun c hc => (hdestination.2 c hc).1
      have hangled : (Destination.angled target).write ++ (writeTitle title ++ ')' :: rest)
          = '<' :: (target ++ '>' :: (writeTitle title ++ ')' :: rest)) := by
        simp [Destination.write]
      rw [hangled, readInline?_angled hinner, hend]
      rfl
  | bare parts =>
      have hparts : ∀ part ∈ parts, part.IsReadable := fun part hp => (hdestination.2 part hp).1
      rw [Destination.write,
        readInline?_bare hdestination.1 hparts (endsBare_writeTitle title rest), hend]
      rfl

theorem notMem_cons {c : Char} {t : Text} (hc : ']' ≠ c) (ht : ∀ d ∈ t, IsInert d) :
    ']' ∉ c :: t :=
  List.not_mem_cons_of_ne_of_not_mem hc (notMem_of_isInert ht).2

theorem occurrences_colon {s e : Text} (hs : ']' ∉ s) (he : ']' ∉ e) (n : Nat) (t : Text) :
    inlineLink.occurrences n (s ++ ']' :: ':' :: (e ++ t))
      = inlineLink.occurrences (n + (s.length + e.length + 2)) t := by
  have hread : inlineLink.read? (']' :: ':' :: (e ++ t)) = none := by
    have hafter : Text.after? (text "](") (']' :: ':' :: (e ++ t)) = none := rfl
    rw [inlineLink_read?, readInline?, hafter]
  rw [Construct.occurrences_append inlineLink_opensWith hs,
    Construct.occurrences_cons_of_read? hread,
    Construct.occurrences_cons_of_read? (inlineLink_opensWith ':' _ (by decide)),
    Construct.occurrences_append inlineLink_opensWith he]
  congr 1
  omega

/-- The targets of inline links, each with its place, if the text stands at place `n`. -/
def inlineTargetsFrom (n : Nat) (t : Text) : List (Nat × Text) :=
  (inlineLink.occurrences n t).map fun (n, k, target) => (n + k, target)

theorem inlineTargetsFrom_plain {t : Text} (h : (plain t).IsMeant) (n : Nat) (rest : Text) :
    inlineTargetsFrom n ((plain t).visible ++ rest)
      = inlineTargetsFrom (n + (plain t).visible.length) rest := by
  have hvisible : (plain t).visible = t := rfl
  rw [inlineTargetsFrom, inlineTargetsFrom, hvisible,
    Construct.occurrences_append inlineLink_opensWith (notMem_of_isInert h).2]

theorem inlineTargetsFrom_link (h : (link label destination title).IsMeant) (n : Nat)
    (rest : Text) :
    inlineTargetsFrom n ((link label destination title).visible ++ rest)
      = (n + (label.length + 1 + destination.gap), destination.target)
        :: inlineTargetsFrom (n + (link label destination title).visible.length) rest := by
  obtain ⟨hlabel, hdestination, htitle⟩ := h
  have hstart : ']' ∉ '[' :: label := notMem_cons (by decide) hlabel
  have hread := readInline?_linkEnd hdestination htitle rest
  have hlength := congrArg List.length (visible_link_append label destination title rest)
  rw [inlineTargetsFrom, inlineTargetsFrom, visible_link_append,
    Construct.occurrences_append inlineLink_opensWith hstart,
    Construct.occurrences_of_read? hread, List.map_cons]
  simp only [List.length_append, List.length_cons] at hlength ⊢
  congr 2
  · omega
  · congr 1
    omega

theorem inlineTargetsFrom_definition (h : (definition label target).IsMeant) (n : Nat)
    (rest : Text) :
    inlineTargetsFrom n ((definition label target).visible ++ rest)
      = inlineTargetsFrom (n + (definition label target).visible.length) rest := by
  obtain ⟨_, _, hlabel, _, _, htarget⟩ := h
  have hstart : ']' ∉ '[' :: label := notMem_cons (by decide) fun c hc => (hlabel c hc).1
  have hend : ']' ∉ ' ' :: target := notMem_cons (by decide) fun c hc => (htarget c hc).2
  have hlength := congrArg List.length (visible_definition_append label target rest)
  rw [inlineTargetsFrom, inlineTargetsFrom, visible_definition_append,
    occurrences_colon hstart hend]
  simp only [List.length_append, List.length_cons] at hlength ⊢
  congr 2
  omega

theorem inlineTargetsFrom_footnote (h : (footnote label).IsMeant) (n : Nat) (rest : Text) :
    inlineTargetsFrom n ((footnote label).visible ++ rest)
      = inlineTargetsFrom (n + (footnote label).visible.length) rest := by
  have hstart : ']' ∉ '[' :: '^' :: label := by
    rw [List.mem_cons, not_or]
    exact ⟨by decide, notMem_cons (by decide) fun c hc => (h c hc).1⟩
  have hlength := congrArg List.length (visible_footnote_append label rest)
  rw [inlineTargetsFrom, inlineTargetsFrom, visible_footnote_append,
    occurrences_colon hstart (by decide)]
  simp only [List.length_append, List.length_cons] at hlength ⊢
  congr 2
  omega

/-- A search for inline links finds the links that were written. -/
theorem inlineTargetsFrom_visible (h : ∀ piece ∈ pieces, piece.IsMeant) (n : Nat) :
    inlineTargetsFrom n (pieces.flatMap visible) = placed isLink n pieces := by
  induction pieces generalizing n with
  | nil =>
      rw [List.flatMap_nil, inlineTargetsFrom, Construct.occurrences_nil]
      rfl
  | cons piece pieces ih =>
      have hmeant := h piece List.mem_cons_self
      have hpieces := fun n => ih (fun p hp => h p (List.mem_cons_of_mem piece hp)) n
      rw [List.flatMap_cons]
      cases piece with
      | plain t => rw [inlineTargetsFrom_plain hmeant, hpieces, placed_cons_of_none rfl]
      | link label destination title =>
          rw [inlineTargetsFrom_link hmeant, hpieces, placed_cons_of_keep rfl rfl]
      | definition label target =>
          rw [inlineTargetsFrom_definition hmeant, hpieces, placed_cons_of_not_keep rfl]
      | footnote label =>
          rw [inlineTargetsFrom_footnote hmeant, hpieces, placed_cons_of_none rfl]
      | span _ => exact hpieces n
      | fencedCode _ => exact hpieces n

theorem newline_notMem_destination (h : IsDestination destination) : '\n' ∉ destination.write := by
  intro hm
  cases destination with
  | angled target =>
      simp only [Destination.write, List.mem_cons, List.mem_append, List.not_mem_nil, or_false]
        at hm
      rcases hm with hm | hm | hm
      · exact absurd hm (by decide)
      · exact absurd (h.2 _ hm).1 (by decide)
      · exact absurd hm (by decide)
  | bare parts =>
      obtain ⟨part, hpart, hm⟩ := List.mem_flatMap.1 hm
      have hreadable := (h.2 part hpart).1
      cases part with
      | char c =>
          rw [← List.mem_singleton.1 hm] at hreadable
          exact absurd (show isBareChar '\n' = true from hreadable) (by decide)
      | group inner =>
          simp only [BarePart.write, List.mem_cons, List.mem_append, List.not_mem_nil, or_false]
            at hm
          rcases hm with hm | hm | hm
          · exact absurd hm (by decide)
          · exact absurd (hreadable _ hm) (by decide)
          · exact absurd hm (by decide)

theorem newline_notMem_writeTitle (h : ∀ t ∈ title, IsTitle t) :
    '\n' ∉ writeTitle title := by
  intro hm
  cases title with
  | none => cases hm
  | some title =>
      obtain ⟨⟨hmark, hinner⟩, _⟩ := h title rfl
      have hne : '\n' ≠ title.mark := by
        rcases hmark with e | e <;> rw [e] <;> decide
      simp only [writeTitle, Option.elim_some, Title.write, List.mem_cons, List.mem_append,
        List.not_mem_nil, or_false] at hm
      rcases hm with hm | hm | hm | hm
      · exact absurd hm (by decide)
      · exact hne hm
      · exact (hinner _ hm).2 rfl
      · exact hne hm

theorem isUndefined_of_closesLine {t : Text} (h : ClosesLine t) : IsUndefined t := by
  rcases h with rfl | h
  · exact isUndefined_nil
  · obtain ⟨rest, rfl⟩ := List.head?_eq_some_iff.1 h
    exact isUndefined_newline rest

/-- A text within one line leaves the later lines to the text behind it. -/
theorem definitionsFrom_line {s t : Text} (hs : '\n' ∉ s) (ht : IsUndefined t) (n : Nat) :
    definitionsFrom n (s ++ t)
      = (placedDefinition? (n, firstLine (s ++ t))).toList ++ definitionsFrom (n + s.length) t := by
  rw [definitionsFrom_eq, laterDefinitions_append hs, definitionsFrom_of_isUndefined ht]

theorem firstLine_append {s t : Text} (hs : '\n' ∉ s) (ht : ClosesLine t) :
    firstLine (s ++ t) = s := by
  have hinner := Text.bne_of_notMem hs
  rcases ht with rfl | ht
  · rw [List.append_nil]
    exact List.takeWhile_eq_self_iff.2 hinner
  · obtain ⟨rest, rfl⟩ := List.head?_eq_some_iff.1 ht
    exact Text.takeWhile_run hinner (by decide) rest

theorem not_opensLine_link (before label : Text) (destination : Destination)
    (title : Option Title) :
    ¬ OpensLine (before ++ (link label destination title).write) := by
  rw [write, ← List.cons_append, ← List.append_assoc]
  exact not_opensLine_concat (by decide) _

theorem not_opensLine_footnote (before label : Text) :
    ¬ OpensLine (before ++ (footnote label).write) := by
  have hwrite : before ++ (footnote label).write
      = before ++ '[' :: '^' :: (label ++ [']', ':']) ++ [' '] := by
    simp [write, text_definitionColon]
  rw [hwrite]
  exact not_opensLine_concat (by decide) _

theorem newline_notMem_definition (h : (definition label target).IsMeant) :
    '\n' ∉ (definition label target).visible := by
  obtain ⟨_, _, hlabel, _, _, htarget⟩ := h
  intro hm
  simp only [visible, write, List.mem_cons, List.mem_append] at hm
  rcases hm with hm | (hm | hm) | hm
  · exact absurd hm (by decide)
  · exact (hlabel _ hm).2 rfl
  · exact absurd hm (by decide)
  · exact absurd (htarget _ hm).1 (by decide)

theorem newline_notMem_footnote (h : (footnote label).IsMeant) :
    '\n' ∉ (footnote label).visible := by
  intro hm
  simp only [visible, write, List.mem_cons, List.mem_append] at hm
  rcases hm with hm | hm | hm | hm
  · exact absurd hm (by decide)
  · exact absurd hm (by decide)
  · exact (h _ hm).2 rfl
  · exact absurd hm (by decide)

theorem definitionsFrom_plain {t rest : Text} (h : (plain t).IsMeant)
    (hrest : ¬ OpensLine t → IsUndefined rest) (n : Nat) :
    definitionsFrom n ((plain t).visible ++ rest)
      = definitionsFrom (n + (plain t).visible.length) rest :=
  definitionsFrom_append (notMem_of_isInert h).2 hrest n

theorem definitionsFrom_link {rest : Text} (h : (link label destination title).IsMeant)
    (hrest : IsUndefined rest) (n : Nat) :
    definitionsFrom n ((link label destination title).visible ++ rest)
      = definitionsFrom (n + (link label destination title).visible.length) rest := by
  obtain ⟨hlabel, hdestination, htitle⟩ := h
  have hstart : ']' ∉ '[' :: label := notMem_cons (by decide) hlabel
  have hend : '\n' ∉ ']' :: '(' :: (destination.write ++ writeTitle title ++ [')']) := by
    simp only [List.mem_cons, List.mem_append, List.not_mem_nil, or_false, not_or]
    exact ⟨by decide, by decide, ⟨newline_notMem_destination hdestination,
      newline_notMem_writeTitle htitle⟩, by decide⟩
  have hbracket : ∀ t, IsUndefined (']' :: '(' :: t) := isUndefined_bracket (by decide)
  have hlength := congrArg List.length (visible_link_append label destination title rest)
  -- The label can go over lines, so that only what follows it is known to stay within one.
  rw [visible_link_append, definitionsFrom_append hstart fun _ => hbracket _,
    definitionsFrom_of_isUndefined (hbracket _), ← List.cons_append, ← List.cons_append,
    laterDefinitions_append hend, ← definitionsFrom_of_isUndefined hrest]
  simp only [List.length_append, List.length_cons] at hlength ⊢
  congr 1
  omega

theorem definitionsFrom_definition {rest : Text} (h : (definition label target).IsMeant)
    (hrest : ClosesLine rest) (n : Nat) :
    definitionsFrom n ((definition label target).visible ++ rest)
      = (n + (label.length + 4), target)
        :: definitionsFrom (n + (definition label target).visible.length) rest := by
  have hline := newline_notMem_definition h
  obtain ⟨hne, hcaret, hlabel, htarget, hangle, hspace⟩ := h
  have hbracket := (notMem_of_isInert fun c hc => (hlabel c hc).1).2
  have hread : definition? (definition label target).visible = some (label.length + 4, target) :=
    definition?_write hne hcaret hbracket htarget hangle fun c hc => (hspace c hc).1
  rw [definitionsFrom_line hline (isUndefined_of_closesLine hrest), firstLine_append hline hrest,
    placedDefinition?, hread]
  rfl

theorem definitionsFrom_footnote {rest : Text} (h : (footnote label).IsMeant)
    (hrest : IsUndefined rest) (n : Nat) :
    definitionsFrom n ((footnote label).visible ++ rest)
      = definitionsFrom (n + (footnote label).visible.length) rest := by
  have hnone : definition? (firstLine ((footnote label).visible ++ rest)) = none :=
    definition?_caret _
  rw [definitionsFrom_line (newline_notMem_footnote h) hrest, placedDefinition?, hnone]
  rfl

/-- A search for definitions finds the definitions that were written. -/
theorem definitionsFrom_visible {before : Text} (h : Follow before pieces) (n : Nat) :
    definitionsFrom n (pieces.flatMap visible) = placed (fun piece => !piece.isLink) n pieces := by
  induction pieces generalizing before n with
  | nil => rfl
  | cons piece pieces ih =>
      obtain ⟨hmeant, hfits, hrest⟩ := h
      have hpieces := fun n => ih hrest n
      rw [List.flatMap_cons]
      cases piece with
      | plain t =>
          have hundefined : ¬ OpensLine t → IsUndefined (pieces.flatMap visible) :=
            fun hopen => isUndefined_visible hrest fun hline => hopen (opensLine_of_append hline)
          rw [definitionsFrom_plain hmeant hundefined, hpieces, placed_cons_of_none rfl]
      | link label destination title =>
          have hundefined :=
            isUndefined_visible hrest (not_opensLine_link before label destination title)
          rw [definitionsFrom_link hmeant hundefined, hpieces, placed_cons_of_not_keep rfl]
      | definition label target =>
          have hcloses := closesLine_visible hfits.2
          rw [definitionsFrom_definition hmeant hcloses, hpieces, placed_cons_of_keep rfl rfl]
      | footnote label =>
          have hundefined := isUndefined_visible hrest (not_opensLine_footnote before label)
          rw [definitionsFrom_footnote hmeant hundefined, hpieces, placed_cons_of_none rfl]
      | span _ => exact hpieces n
      | fencedCode _ => exact hpieces n

theorem isMeant_of_follow {before : Text} (h : Follow before pieces) :
    ∀ piece ∈ pieces, piece.IsMeant := by
  induction pieces generalizing before with
  | nil => exact fun _ hm => absurd hm List.not_mem_nil
  | cons piece pieces ih =>
      obtain ⟨hmeant, _, hrest⟩ := h
      exact List.forall_mem_cons.2 ⟨hmeant, ih hrest⟩

theorem target_ne_nil_of_isMeant (h : piece.IsMeant) (htarget : piece.target? = some target) :
    target ≠ [] := by
  cases piece with
  | link label destination title =>
      obtain rfl := Option.some.inj htarget
      obtain ⟨_, hdestination, _⟩ := h
      cases destination with
      | angled target => exact hdestination.1
      | bare parts =>
          obtain ⟨c, t, he, _⟩ :=
            exists_cons_of_isReadable hdestination.1 fun part hp => (hdestination.2 part hp).1
          rw [Destination.target, he]
          exact List.cons_ne_nil c t
  | definition label target =>
      obtain rfl := Option.some.inj htarget
      exact h.2.2.2.1
  | _ => cases htarget

/-- The targets of a written body are the targets of its pieces, in their order. -/
theorem targets_writeAll (h : Follow [] pieces) :
    Markdown.targets (writeAll pieces) = targets pieces := by
  have hinline : inlineTargets (pieces.flatMap visible) = placed isLink 0 pieces :=
    inlineTargetsFrom_visible (isMeant_of_follow h) 0
  have hdefinitions : definitionTargets (pieces.flatMap visible)
      = placed (fun piece => !piece.isLink) 0 pieces := definitionsFrom_visible h 0
  have hne : ∀ target ∈ targets pieces, decide (target ≠ []) = true := by
    intro target htarget
    obtain ⟨piece, hpiece, he⟩ := List.mem_filterMap.1 htarget
    exact decide_eq_true (target_ne_nil_of_isMeant (isMeant_of_follow h piece hpiece) he)
  rw [Markdown.targets, stripCode_write h, placedTargets, hinline, hdefinitions, merge_placed,
    map_snd_placed, List.filter_eq_self.2 hne]

end Piece

/-- The links of a body that is written from pieces are the links to the targets of the pieces, in
their order and as often as they were written. -/
theorem links_writeAll {pieces : List Piece} (h : Piece.Follow [] pieces) (marker : Text) :
    links marker (Piece.writeAll pieces)
      = (Piece.targets pieces).map (Link.ofTarget marker) := by
  rw [links, Piece.targets_writeAll h]

/-- Pieces of every kind. -/
def samplePieces : List Piece :=
  [.footnote (text "1"), .plain (text "see "),
    .link (text "api") (.bare [.char 'a', .group (text "b")]) none, .span (text "[x](y)"),
    .plain ['\n'], .definition (text "ref") (text "../c.md"), .plain ['\n'],
    .fencedCode (text "\n[z](w)\n"),
    .link (text "d") (.angled (text "d e.md")) (some ⟨'"', text "D"⟩)]

theorem links_writeAll_samplePieces :
    Piece.Follow [] samplePieces
      ∧ links (text "/docs/") (Piece.writeAll samplePieces)
        = [text "a(b)", text "../c.md", text "d e.md"].map (Link.ofTarget (text "/docs/")) :=
  have h : Piece.Follow [] samplePieces := by decide +kernel
  ⟨h, links_writeAll h (text "/docs/")⟩

theorem flatMap_write_char (t : Text) : (t.map BarePart.char).flatMap BarePart.write = t := by
  induction t with
  | nil => rfl
  | cons c t ih => rw [List.map_cons, List.flatMap_cons, ih, BarePart.write, List.singleton_append]

/-- The written form of a link whose target is a run of bare characters, closing brackets among
them. -/
def loneLink (label target : Text) : Text := '[' :: (label ++ text "](" ++ target ++ [')'])

theorem loneLink_eq (label target : Text) :
    loneLink label target = ('[' :: label) ++ (text "](" ++ (target ++ [')'])) := by
  simp [loneLink]

theorem notMem_loneLink {c : Char} {label target : Text} (hopening : c ≠ '[') (hlabel : c ∉ label)
    (hseam : c ∉ text "](") (htarget : c ∉ target) (hclosing : c ≠ ')') :
    c ∉ loneLink label target := by
  simp only [loneLink, List.mem_cons, List.mem_append, List.not_mem_nil, hopening, hlabel, hseam,
    htarget, hclosing, or_false, not_false_eq_true]

theorem inlineTargets_loneLink {label target : Text} (hlabel : ']' ∉ label) (hne : target ≠ [])
    (htarget : ∀ c ∈ target, isBareChar c = true) :
    inlineTargets (loneLink label target) = [(label.length + 3, target)] := by
  have hstart : ']' ∉ '[' :: label := List.not_mem_cons_of_ne_of_not_mem (by decide) hlabel
  have hparts : ∀ part ∈ target.map BarePart.char, part.IsReadable := by
    intro part hpart
    obtain ⟨c, hc, rfl⟩ := List.mem_map.1 hpart
    exact htarget c hc
  have hbare := readInline?_bare (mt List.map_eq_nil_iff.1 hne) hparts
    (Or.inr ⟨')', [], rfl, by decide, by decide⟩)
  rw [flatMap_write_char, afterLinkEnd?_parenthesis] at hbare
  have hread : inlineLink.read? (text "](" ++ (target ++ [')'])) = some ((2, target), []) := hbare
  rw [inlineTargets, loneLink_eq, Construct.occurrences_append inlineLink_opensWith hstart,
    Construct.occurrences_of_read? hread, Construct.occurrences_nil]
  simp

theorem definitionTargets_loneLink {label target : Text} (hlabel : ']' ∉ label)
    (htarget : ∀ c ∈ target, isBareChar c = true) :
    definitionTargets (loneLink label target) = [] := by
  have hstart : ']' ∉ '[' :: label := List.not_mem_cons_of_ne_of_not_mem (by decide) hlabel
  have hline : '\n' ∉ text "](" ++ (target ++ [')']) := by
    intro hm
    rcases List.mem_append.1 hm with hm | hm
    · exact absurd hm (by decide)
    · rcases List.mem_append.1 hm with hm | hm
      · exact absurd (htarget _ hm) (by decide)
      · exact absurd hm (by decide)
  have hbracket : IsUndefined (text "](" ++ (target ++ [')'])) :=
    isUndefined_bracket (by decide) _
  have hlater := laterDefinitions_append hline (0 + ('[' :: label).length) []
  rw [List.append_nil] at hlater
  rw [definitionTargets_eq, loneLink_eq, definitionsFrom_append hstart fun _ => hbracket,
    definitionsFrom_of_isUndefined hbracket, hlater]
  rfl

/-- A body that is one link has that link. -/
theorem links_loneLink {label target : Text} (hlabel : ∀ c ∈ label, c ≠ tick ∧ c ≠ ']')
    (hne : target ≠ []) (htarget : ∀ c ∈ target, isBareChar c = true ∧ c ≠ tick)
    (marker : Text) : links marker (loneLink label target) = [Link.ofTarget marker target] := by
  have hbracket : ']' ∉ label := fun hm => (hlabel _ hm).2 rfl
  have hbare : ∀ c ∈ target, isBareChar c = true := fun c hc => (htarget c hc).1
  have htick : tick ∉ loneLink label target :=
    notMem_loneLink (by decide) (fun hm => (hlabel _ hm).1 rfl) (by decide)
      (fun hm => (htarget _ hm).2 rfl) (by decide)
  rw [links, Markdown.targets, stripCode_of_notMem htick, placedTargets,
    inlineTargets_loneLink hbracket hne hbare, definitionTargets_loneLink hbracket hbare,
    List.merge_right]
  simp [hne]

end Markdown
end DocAudit
