import SqlSurvey.Proofs.Pattern.Layout

/-!
# All hits in a text

A pattern that does not look back and always takes a character is searched for again where its last hit ends, so
what holds of all its hits follows from what holds of one. What is found this way does not depend on the layout of
the text: not on the lengths of the runs of blanks in it, and not on the blanks at its ends if the last thing the
pattern takes is no blank.
-/

namespace SqlSurvey

/-- More than blanks follow the hit. -/
def Hit.leavesSome (h : Hit) : Bool := !h.rest.all Text.isBlank

theorem Hit.isBlank_of_leavesSome {h : Hit} (hNone : h.leavesSome = false) : ∀ c ∈ h.rest, Text.isBlank c = true := by
  rw [leavesSome, Bool.not_eq_false'] at hNone
  exact List.all_eq_true.1 hNone

namespace Pattern

variable {p q : Pattern} {last : Option Char} {s t l r : List Char} {c : Char} {n : Nat}

/-! ## One hit after the other -/

theorem Forward.scan_eq (hp : p.Forward) (last last' : Option Char) (skip : Nat) (s : List Char) :
    p.scan last skip s = p.scan last' skip s := by
  cases s with
  | nil => rw [scan, scan, here, here, hp.hits_eq last last']
  | cons c r =>
    cases skip with
    | zero => rw [scan, scan, here, here, hp.hits_eq last last']
    | succ n => rw [scan, scan]

/-- The search goes on after the characters that belong to the last hit. -/
theorem scan_append (last : Option Char) (t s : List Char) :
    p.scan last t.length (t ++ s) = p.scan (lastOf last t) 0 s := by
  induction t generalizing last with
  | nil => rfl
  | cons c t ih => rw [List.length_cons, List.cons_append, scan, ih, lastOf_cons]

/-- A pattern that is searched for again where its last hit ends. -/
structure Advances (p : Pattern) : Prop where
  forward : p.Forward
  takesSome : p.takesSome = true

theorem Advances.findAll_of_here (hp : p.Advances) {h : Hit} (hHere : p.here none s = some h) :
    p.findAll s = h :: p.findAll h.rest := by
  have hMem : h ∈ p.hits none s := List.mem_of_mem_head? hHere
  obtain ⟨c, t, hText⟩ := List.exists_cons_of_ne_nil (text_ne_nil hp.takesSome hMem)
  obtain rfl : c :: (t ++ h.rest) = s := by rw [← text_append_rest hMem, hText, List.cons_append]
  rw [findAll, scan, hHere]
  -- the rest of the hit is skipped
  show h :: p.scan (some c) (h.text.length - 1) (t ++ h.rest) = h :: p.findAll h.rest
  rw [hText, List.length_cons, Nat.add_sub_cancel, scan_append]
  exact congrArg (h :: ·) (hp.forward.scan_eq _ _ 0 h.rest)

theorem Advances.findAll_cons_of_here (hp : p.Advances) (hHere : p.here none (c :: s) = none) :
    p.findAll (c :: s) = p.findAll s := by
  rw [findAll, scan, hHere]
  exact hp.forward.scan_eq _ _ 0 s

theorem Advances.here_nil (hp : p.Advances) : p.here last [] = none := by
  rw [here, hits_nil hp.takesSome, List.head?_nil]

theorem Advances.findAll_nil (hp : p.Advances) : p.findAll [] = [] := by
  rw [findAll, scan, if_pos rfl, hp.here_nil]
  rfl

/-- A text is empty, or has no hit at its head, or a hit there and a text after it. -/
theorem Advances.findAll_induction (hp : p.Advances) {motive : List Char → Prop} (nil : motive [])
    (miss : ∀ c s, p.here none (c :: s) = none → motive s → motive (c :: s))
    (hit : ∀ s h, p.here none s = some h → motive h.rest → motive s) (s : List Char) : motive s := by
  induction hLength : s.length using Nat.strong_induction_on generalizing s with
  | _ k ih =>
    cases s with
    | nil => exact nil
    | cons c s =>
      cases hHere : p.here none (c :: s) with
      | none => exact miss c s hHere (ih s.length (by simp [← hLength]) s rfl)
      | some h =>
        have hMem : h ∈ p.hits none (c :: s) := List.mem_of_mem_head? hHere
        have hText := List.length_pos_iff.2 (text_ne_nil hp.takesSome hMem)
        have hSplit := congrArg List.length (text_append_rest hMem)
        rw [List.length_append] at hSplit
        exact hit _ h hHere (ih h.rest.length (by omega) h.rest rfl)

/-- Each hit stands somewhere in the text. -/
theorem Advances.exists_of_mem_findAll (hp : p.Advances) {h : Hit} (hh : h ∈ p.findAll s) :
    ∃ v, h ∈ p.hits none v := by
  induction s using hp.findAll_induction with
  | nil => rw [hp.findAll_nil] at hh; exact absurd hh List.not_mem_nil
  | miss c s hHere ih => rw [hp.findAll_cons_of_here hHere] at hh; exact ih hh
  | hit s k hHere ih =>
    rw [hp.findAll_of_here hHere] at hh
    rcases List.mem_cons.1 hh with rfl | hh
    · exact ⟨s, List.mem_of_mem_head? hHere⟩
    · exact ih hh

/-! ## Runs of blanks -/

theorem Refuses.here_eq_none (hRefuses : p.Refuses Text.isBlank) (hc : Text.isBlank c = true) (s : List Char) :
    p.here last (c :: s) = none := by rw [here, hRefuses last c s hc, List.head?_nil]

theorem Stable.here_squeeze (hp : p.Stable) (s : List Char) :
    p.here none (Text.squeeze s) = (p.here none s).map Hit.squeeze := by
  rw [here, here, ← List.head?_map, ← hp.hits_squeeze]
  rfl

/-- A pattern that does not begin with a blank has the same hits in the squeezed text. -/
theorem Advances.findAll_squeeze (hp : p.Advances) (hStable : p.Stable) (hRefuses : p.Refuses Text.isBlank)
    (s : List Char) : p.findAll (Text.squeeze s) = (p.findAll s).map Hit.squeeze := by
  induction s using hp.findAll_induction with
  | nil => rw [Text.squeeze_nil, hp.findAll_nil, List.map_nil]
  | hit s h hHere ih =>
    have hSqueezed : p.here none (Text.squeeze s) = some h.squeeze := by rw [hStable.here_squeeze, hHere]; rfl
    rw [hp.findAll_of_here hSqueezed, hp.findAll_of_here hHere, Hit.squeeze_rest, ih, List.map_cons]
  | miss c s hHere ih =>
    rw [hp.findAll_cons_of_here hHere, ← ih]
    by_cases hc : Text.isBlank c = true
    · -- the space for a run of blanks stands where the last of them does
      rw [Text.squeeze, if_pos hc]
      split
      · rfl
      · exact hp.findAll_cons_of_here (hRefuses.here_eq_none (by decide) _)
    · rw [Bool.not_eq_true] at hc
      have hSqueezed : p.here none (c :: Text.squeeze s) = none := by
        rw [← Text.squeeze_cons hc, hStable.here_squeeze, hHere]
        rfl
      rw [Text.squeeze_cons hc, hp.findAll_cons_of_here hSqueezed]

/-! ## Blanks at the ends -/

theorem Advances.findAll_blanks_append (hp : p.Advances) (hRefuses : p.Refuses Text.isBlank)
    (hl : ∀ c ∈ l, Text.isBlank c = true) (s : List Char) : p.findAll (l ++ s) = p.findAll s := by
  induction l with
  | nil => rfl
  | cons c l ih =>
    rw [List.cons_append, hp.findAll_cons_of_here (hRefuses.here_eq_none (hl c List.mem_cons_self) _)]
    exact ih fun d hd => hl d (List.mem_cons_of_mem c hd)

theorem all_isBlank_append (hr : ∀ c ∈ r, Text.isBlank c = true) (s : List Char) :
    (s ++ r).all Text.isBlank = s.all Text.isBlank := by
  rw [List.all_append, List.all_eq_true.2 hr, Bool.and_true]

theorem filter_leavesSome_of_isBlank (hs : ∀ c ∈ s, Text.isBlank c = true) (last : Option Char) :
    (p.hits last s).filter Hit.leavesSome = [] := by
  rw [List.filter_eq_nil_iff]
  intro k hk
  have hAll := List.all_eq_true.2 hs
  rw [← text_append_rest hk, List.all_append] at hAll
  simp [Hit.leavesSome, (Bool.and_eq_true_iff.1 hAll).2]

/-- A hit in two parts leaves something if its second part does, and then its first part does as well. -/
theorem filter_leavesSome_hits_append (p q : Pattern) (last : Option Char) (s : List Char) :
    ((p ++ q).hits last s).filter Hit.leavesSome = ((p.hits last s).filter Hit.leavesSome).flatMap fun h =>
      ((q.hits (lastOf last h.text) h.rest).filter Hit.leavesSome).map h.andThen := by
  have hEach : ∀ (h : Hit) (ks : List Hit),
      (ks.map h.andThen).filter Hit.leavesSome = (ks.filter Hit.leavesSome).map h.andThen :=
    fun h ks => List.filter_map
  rw [hits_append, List.filter_flatMap]
  simp only [hEach]
  refine flatMap_eq_flatMap_filter fun h _ hNone => ?_
  rw [filter_leavesSome_of_isBlank (Hit.isBlank_of_leavesSome hNone), List.map_nil]

theorem leavesSome_extend (hr : ∀ c ∈ r, Text.isBlank c = true) (h : Hit) :
    (extend r h).leavesSome = h.leavesSome := by
  rw [Hit.leavesSome, extend, all_isBlank_append hr, Hit.leavesSome]

theorem filter_leavesSome_runHits_append {B : Char → Bool} (hr : ∀ c ∈ r, Text.isBlank c = true) (s : List Char) :
    (runHits B (s ++ r)).filter Hit.leavesSome = ((runHits B s).filter Hit.leavesSome).map (extend r) := by
  induction s with
  | nil => exact filter_leavesSome_of_isBlank (p := many B .shortest) hr none
  | cons c s ih =>
    have hEach : ∀ ks : List Hit, (ks.map fun h => { h with text := c :: h.text }).filter Hit.leavesSome =
        (ks.filter Hit.leavesSome).map fun h => { h with text := c :: h.text } := fun ks => List.filter_map
    rw [List.cons_append, runHits, runHits]
    by_cases hc : B c = true
    · have hFirst : (⟨[c], [], s ++ r⟩ : Hit).leavesSome = (⟨[c], [], s⟩ : Hit).leavesSome :=
        leavesSome_extend hr ⟨[c], [], s⟩
      rw [if_pos hc, if_pos hc, List.filter_cons, List.filter_cons, hEach, hEach, ih, hFirst]
      split <;> simp [extend]
    · rw [if_neg hc, if_neg hc]
      rfl

theorem filter_leavesSome_map_extend (hr : ∀ c ∈ r, Text.isBlank c = true) (ks : List Hit) :
    (ks.map (extend r)).filter Hit.leavesSome = (ks.filter Hit.leavesSome).map (extend r) := by
  rw [List.filter_map]
  exact congrArg (fun P => (ks.filter P).map (extend r)) (funext (leavesSome_extend hr))

/-- Blanks at the end of a text make no difference to the hits that leave more than blanks. -/
theorem filter_leavesSome_hits_append_blanks (p : Pattern) (hr : ∀ c ∈ r, Text.isBlank c = true)
    (last : Option Char) (s : List Char) :
    (p.hits last (s ++ r)).filter Hit.leavesSome = ((p.hits last s).filter Hit.leavesSome).map (extend r) := by
  -- in an empty text there is nothing that could be left
  have hNil : ∀ (p : Pattern) (last : Option Char), (p.hits last ([] ++ r)).filter Hit.leavesSome =
      ((p.hits last []).filter Hit.leavesSome).map (extend r) := fun p last => by
    rw [List.nil_append, filter_leavesSome_of_isBlank hr, filter_leavesSome_of_isBlank (by simp), List.map_nil]
  induction p generalizing last s with
  | empty => exact filter_leavesSome_map_extend hr [⟨[], [], s⟩]
  | char B =>
    cases s with
    | nil => exact hNil _ last
    | cons c s =>
      rw [← filter_leavesSome_map_extend hr]
      by_cases hc : B c = true <;> simp [hits, hc, extend]
  | many B preference =>
    have hRun := filter_leavesSome_runHits_append (B := B) hr s
    cases preference with
    | longest => simp only [hits, List.filter_reverse, hRun, List.map_reverse]
    | shortest => exact hRun
  | seq p q ihp ihq =>
    have hSeq := filter_leavesSome_hits_append p q last
    rw [show (seq p q).hits last = (p ++ q).hits last from rfl, hSeq, hSeq, ihp, List.flatMap_map, List.map_flatMap]
    refine List.flatMap_congr fun h _ => ?_
    rw [show (extend r h).rest = h.rest ++ r from rfl, ihq, List.map_map, List.map_map]
    rfl
  | either p q ihp ihq => rw [hits, hits, List.filter_append, List.filter_append, ihp, ihq, List.map_append]
  | group m p ih =>
    have hEach : ∀ ks : List Hit, (ks.map fun h => { h with groups := (m, h.text) :: h.groups }).filter
        Hit.leavesSome = (ks.filter Hit.leavesSome).map fun h => { h with groups := (m, h.text) :: h.groups } :=
      fun ks => List.filter_map
    rw [hits, hits, hEach, hEach, ih, List.map_map, List.map_map]
    rfl
  | atStart =>
    rw [← filter_leavesSome_map_extend hr]
    by_cases hl : last.isNone = true <;> simp [hits, hl, extend]
  | atEnd =>
    cases s with
    | nil => exact hNil _ last
    | cons c s => simp [hits]
  | atWordEdge =>
    cases s with
    | nil => exact hNil _ last
    | cons c s =>
      rw [← filter_leavesSome_map_extend hr]
      by_cases hEdge : wordEdge last (c :: s) = true <;> simp_all [hits, wordEdge, extend]

/-- Nothing that needs a character other than a blank is found among blanks. -/
theorem hits_of_isBlank (hRefuses : q.Refuses Text.isBlank) (hSome : q.takesSome = true)
    (hs : ∀ c ∈ s, Text.isBlank c = true) (last : Option Char) : q.hits last s = [] := by
  cases s with
  | nil => exact hits_nil hSome last
  | cons c s => exact hRefuses last c s (hs c List.mem_cons_self)

/-- Before something that needs more than blanks, only the hits count that leave more than blanks. -/
theorem hits_append_eq_filter_leavesSome (p : Pattern) (hRefuses : q.Refuses Text.isBlank)
    (hSome : q.takesSome = true) (last : Option Char) (s : List Char) :
    (p ++ q).hits last s = ((p.hits last s).filter Hit.leavesSome).flatMap fun h =>
      (q.hits (lastOf last h.text) h.rest).map h.andThen := by
  refine (hits_append p q last s).trans (flatMap_eq_flatMap_filter fun h _ hNone => ?_)
  rw [hits_of_isBlank hRefuses hSome (Hit.isBlank_of_leavesSome hNone), List.map_nil]

/-- A pattern that ends with something that takes no blank, but some character, sees nothing of the blanks at the
end of a text. -/
theorem hits_append_append_blanks (p : Pattern) (hq : q.Avoids Text.isBlank) (hRefuses : q.Refuses Text.isBlank)
    (hSome : q.takesSome = true) (hr : ∀ c ∈ r, Text.isBlank c = true) (last : Option Char) (s : List Char) :
    (p ++ q).hits last (s ++ r) = ((p ++ q).hits last s).map (extend r) := by
  rw [hits_append_eq_filter_leavesSome p hRefuses hSome, hits_append_eq_filter_leavesSome p hRefuses hSome,
    filter_leavesSome_hits_append_blanks p hr, List.flatMap_map, List.map_flatMap]
  refine List.flatMap_congr fun h _ => ?_
  rw [show (extend r h).rest = h.rest ++ r from rfl,
    hits_append_of_avoids hq h.rest fun c hc => hr c (List.mem_of_mem_head? hc), List.map_map, List.map_map]
  rfl

theorem Advances.findAll_append_blanks (hp : p.Advances) (hRefuses : p.Refuses Text.isBlank)
    (hBlanks : ∀ s, p.hits none (s ++ r) = (p.hits none s).map (extend r)) (hr : ∀ c ∈ r, Text.isBlank c = true)
    (s : List Char) : p.findAll (s ++ r) = (p.findAll s).map (extend r) := by
  have hHere : ∀ s, p.here none (s ++ r) = (p.here none s).map (extend r) := fun s => by
    rw [here, here, hBlanks, List.head?_map]
  induction s using hp.findAll_induction with
  | nil =>
    have hNone := hp.findAll_blanks_append hRefuses hr []
    rw [List.append_nil] at hNone
    rw [List.nil_append, hNone, hp.findAll_nil, List.map_nil]
  | miss c s hMiss ih =>
    have hLonger : p.here none (c :: (s ++ r)) = none := by rw [← List.cons_append, hHere, hMiss]; rfl
    rw [List.cons_append, hp.findAll_cons_of_here hLonger, hp.findAll_cons_of_here hMiss, ih]
  | hit s h hHit ih =>
    have hLonger : p.here none (s ++ r) = some (extend r h) := by rw [hHere, hHit]; rfl
    rw [hp.findAll_of_here hLonger, hp.findAll_of_here hHit, List.map_cons, ← ih]
    rfl

/-! ## Both at once -/

/-- A search for a pattern that ends with a word character and neither begins with a blank nor keeps one finds the
same parts in the collapsed text. -/
theorem Advances.map_groupText_findAll_collapse (hp : (p ++ q).Advances) (hStable : (p ++ q).Stable)
    (hRefuses : (p ++ q).Refuses Text.isBlank) (hSolid : (p ++ q).KeepsSolid n) (hq : q.Avoids Text.isBlank)
    (hqRefuses : q.Refuses Text.isBlank) (hSome : q.takesSome = true) (s : List Char) :
    ((p ++ q).findAll (Text.collapse s)).map (Hit.groupText · n) =
      ((p ++ q).findAll s).map (Hit.groupText · n) := by
  obtain ⟨l, r, hs, hl, hr⟩ := Text.exists_eq_append_trim s
  have hEnds : (p ++ q).findAll s = ((p ++ q).findAll (Text.trim s)).map (extend r) := by
    conv_lhs => rw [hs, List.append_assoc, hp.findAll_blanks_append hRefuses hl]
    exact hp.findAll_append_blanks hRefuses (hits_append_append_blanks p hq hqRefuses hSome hr none) hr _
  rw [Text.collapse_eq, hp.findAll_squeeze hStable hRefuses, hEnds, List.map_map, List.map_map]
  refine List.map_congr_left fun h hh => ?_
  obtain ⟨v, hv⟩ := hp.exists_of_mem_findAll hh
  show h.squeeze.groupText n = h.groupText n
  rw [Hit.groupText_squeeze, Text.squeeze_of_forall (isBlank_groupText_of_mem hSolid hv)]

end Pattern

end SqlSurvey
