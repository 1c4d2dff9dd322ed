import SqlSurvey.Proofs.Json.Scalar

/-!
# Reading documents back

A value whose numbers are natural and fit into 64 bits is read back from its document. The text of an item is read
with whatever comes after it left over, so a container is read item by item.
-/

namespace SqlSurvey.Json

variable {j : Json} {n depth fuel : Nat} {c : Char} {s t rest : List Char}

/-- A value that can be read back. -/
inductive Writable : Json → Prop where
  | null : Writable null
  | bool (b : Bool) : Writable (bool b)
  | natural {n : Nat} (h : n < naturalEnd) : Writable (natural n)
  | string (s : String) : Writable (string s)
  | array {items : List Json} (h : ∀ i ∈ items, Writable i) : Writable (array items)
  | object {fields : List (String × Json)} (h : ∀ f ∈ fields, Writable f.2) : Writable (object fields)

/-- The value is read from its text at any depth, with any text after it that does not go on with a number. -/
def ReadsBack (j : Json) : Prop :=
  ∀ depth fuel rest, EndsNumber rest → (renderAt depth j).length ≤ fuel →
    readValue (fuel + 1) (renderAt depth j ++ rest) = some (j, rest)

/-! ## White space -/

theorem skipSpace_newline (depth : Nat) (s : List Char) : skipSpace (newline depth ++ s) = skipSpace s := by
  refine List.dropWhile_append_of_pos fun c hc => ?_
  rcases List.mem_cons.1 hc with rfl | hc
  · rfl
  · rw [List.eq_of_mem_replicate hc]
    rfl

theorem skipSpace_cons (hc : isSpace c = false) (s : List Char) : skipSpace (c :: s) = c :: s :=
  List.dropWhile_cons_of_neg (by simp [hc])

theorem readValue_congr (h : skipSpace s = skipSpace t) (fuel : Nat) : readValue fuel s = readValue fuel t := by
  cases fuel with
  | zero => rfl
  | succ fuel => rw [readValue, readValue, h]

theorem readValue_newline (depth fuel : Nat) (s : List Char) :
    readValue fuel (newline depth ++ s) = readValue fuel s := readValue_congr (skipSpace_newline depth s) fuel

theorem readValue_space (fuel : Nat) (s : List Char) : readValue fuel (' ' :: s) = readValue fuel s :=
  readValue_congr (List.dropWhile_cons_of_pos rfl) fuel

theorem endsNumber_cons (hDigit : c.isDigit = false) (hDot : c ≠ '.') (he : c ≠ 'e') (hE : c ≠ 'E') :
    EndsNumber (c :: s) := by
  intro d hd
  obtain rfl : c = d := by simpa using hd
  exact ⟨hDigit, hDot, he, hE⟩

/-! ## Numbers and brackets -/

theorem readsBack_natural (hn : n < naturalEnd) : ReadsBack (natural n) := by
  intro depth fuel rest hRest _
  obtain ⟨d, ds, hDecimal⟩ := List.exists_cons_of_ne_nil (decimal_ne_nil n)
  have hd : d.isDigit = true := isDigit_of_mem_decimal (n := n) (by simp [hDecimal])
  have hOther : ∀ c : Char, c.isDigit = false → d ≠ c := by
    rintro c hc rfl
    rw [hc] at hd
    exact Bool.noConfusion hd
  have hRead := readNumber_decimal_append hn hRest
  have hText : renderAt depth (natural n) = decimal n := by rw [renderAt]
  have hSpace : isSpace d = false := by simp [isSpace, hOther]
  rw [hText, hDecimal]
  rw [hDecimal] at hRead
  rw [readValue, List.cons_append, skipSpace_cons hSpace]
  -- a digit begins none of the other values
  split
  case h_7 => exact hRead
  all_goals
    next hHead =>
    exact absurd (List.cons.inj hHead).1 (hOther _ (by decide))

/-- Nothing that is read back begins with a bracket that closes. -/
theorem ReadsBack.skipSpace_ne (h : ReadsBack j) (hs : EndsNumber s) (t : List Char) :
    skipSpace (renderAt depth j ++ s) ≠ ']' :: t := by
  intro hClose
  have hRead := h depth _ s hs (Nat.le_refl _)
  rw [readValue_congr (hClose.trans (skipSpace_cons (by decide) t).symm)] at hRead
  have hNone : ∀ fuel, readValue (fuel + 1) (']' :: t) = none := fun fuel => rfl
  rw [hNone] at hRead
  cases hRead

/-- An array is opened and not closed at once. -/
theorem readValue_array (h : ∀ t, skipSpace s ≠ ']' :: t) (fuel : Nat) :
    readValue (fuel + 1) ('[' :: s) = (readItems fuel s).map fun p => (array p.1, p.2) := by
  simp only [readValue, skipSpace_cons (show isSpace '[' = false by decide)]

/-- An object is opened and not closed at once. -/
theorem readValue_object (h : ∀ t, skipSpace s ≠ '\x7d' :: t) (fuel : Nat) :
    readValue (fuel + 1) ('\x7b' :: s) = (readFields fuel s).map fun p => (object p.1, p.2) := by
  simp only [readValue, skipSpace_cons (show isSpace '\x7b' = false by decide)]

/-! ## Containers -/

theorem endsNumber_comma (s : List Char) : EndsNumber (',' :: s) :=
  endsNumber_cons (by decide) (by decide) (by decide) (by decide)

theorem endsNumber_newline (depth : Nat) (s : List Char) : EndsNumber (newline depth ++ s) :=
  endsNumber_cons (by decide) (by decide) (by decide) (by decide)

theorem endsNumber_renderItems (depth : Nat) (is : List Json) (outer : Nat) (s : List Char) :
    EndsNumber (renderItems depth is ++ (newline outer ++ s)) := by
  cases is with
  | nil => rw [renderItems]; exact endsNumber_newline outer s
  | cons i is => rw [renderItems]; exact endsNumber_comma _

/-- The items of an array are read one after the other. -/
theorem readItems_render {i : Json} {is : List Json} (hi : ReadsBack i) (his : ∀ k ∈ is, ReadsBack k)
    (outer : Nat) (rest : List Char) (hFuel : (renderAt depth i ++ renderItems depth is).length < fuel) :
    readItems (fuel + 1) (newline depth ++ (renderAt depth i ++ (renderItems depth is ++
      (newline outer ++ ']' :: rest)))) = some (i :: is, rest) := by
  induction is generalizing i fuel with
  | nil =>
    obtain ⟨fuel, rfl⟩ := Nat.exists_eq_succ_of_ne_zero (Nat.ne_zero_of_lt hFuel)
    have hItem : readValue (fuel + 1) (newline depth ++ (renderAt depth i ++ (newline outer ++ ']' :: rest))) =
        some (i, newline outer ++ ']' :: rest) := by
      rw [readValue_newline]
      exact hi depth fuel _ (endsNumber_newline outer _) (by simp [renderItems] at hFuel; omega)
    have hSkip : skipSpace (newline outer ++ ']' :: rest) = ']' :: rest := by
      rw [skipSpace_newline, skipSpace_cons (by decide)]
    simp only [renderItems, List.nil_append, readItems, hItem, hSkip]
  | cons k ks ih =>
    obtain ⟨fuel, rfl⟩ := Nat.exists_eq_succ_of_ne_zero (Nat.ne_zero_of_lt hFuel)
    have hText : ∀ s, renderItems depth (k :: ks) ++ s =
        ',' :: (newline depth ++ (renderAt depth k ++ (renderItems depth ks ++ s))) := fun s => by
      simp [renderItems]
    have hLength := congrArg List.length (hText [])
    simp only [List.length_append, List.length_cons, List.length_nil] at hLength hFuel
    have hItem : ∀ s, readValue (fuel + 1) (newline depth ++ (renderAt depth i ++ ',' :: s)) = some (i, ',' :: s) := by
      intro s
      rw [readValue_newline]
      exact hi depth fuel _ (endsNumber_comma s) (by omega)
    have hLess : (renderAt depth k ++ renderItems depth ks).length < fuel := by
      rw [List.length_append]
      omega
    have hRest := ih (his k List.mem_cons_self) (fun m hm => his m (List.mem_cons_of_mem k hm)) hLess
    rw [hText, readItems, hItem]
    simp only [skipSpace_cons (show isSpace ',' = false by decide), hRest, Option.map_some]

theorem quote_append (k s : List Char) : quote k ++ s = '"' :: (k.flatMap escapeChar ++ '"' :: s) := by
  simp [quote]

/-- The fields of an object are read one after the other, the key of each and then its value. -/
theorem readFields_render {k : String} {v : Json} {fs : List (String × Json)} (hv : ReadsBack v)
    (hfs : ∀ f ∈ fs, ReadsBack f.2) (outer : Nat) (rest : List Char)
    (hFuel : (renderAt depth v ++ renderFields depth fs).length < fuel) :
    readFields (fuel + 1) (newline depth ++ (quote k.toList ++ (':' :: ' ' :: (renderAt depth v ++
      (renderFields depth fs ++ (newline outer ++ '\x7d' :: rest)))))) = some ((k, v) :: fs, rest) := by
  induction fs generalizing k v fuel with
  | nil =>
    obtain ⟨fuel, rfl⟩ := Nat.exists_eq_succ_of_ne_zero (Nat.ne_zero_of_lt hFuel)
    have hValue : readValue (fuel + 1) (' ' :: (renderAt depth v ++ (newline outer ++ '\x7d' :: rest))) =
        some (v, newline outer ++ '\x7d' :: rest) := by
      rw [readValue_space]
      exact hv depth fuel _ (endsNumber_newline outer _) (by simp [renderFields] at hFuel; omega)
    have hSkip : skipSpace (newline outer ++ '\x7d' :: rest) = '\x7d' :: rest := by
      rw [skipSpace_newline, skipSpace_cons (by decide)]
    rw [readFields, skipSpace_newline, quote_append, skipSpace_cons (by decide)]
    simp only [readString_flatMap, skipSpace_cons (show isSpace ':' = false by decide), renderFields, List.nil_append,
      hValue, hSkip, String.ofList_toList]
  | cons f fs ih =>
    obtain ⟨fuel, rfl⟩ := Nat.exists_eq_succ_of_ne_zero (Nat.ne_zero_of_lt hFuel)
    have hText : ∀ s, renderFields depth (f :: fs) ++ s = ',' :: (newline depth ++ (quote f.1.toList ++
        (':' :: ' ' :: (renderAt depth f.2 ++ (renderFields depth fs ++ s))))) := fun s => by
      simp [renderFields]
    have hLength := congrArg List.length (hText [])
    simp only [List.length_append, List.length_cons, List.length_nil] at hLength hFuel
    have hValue : ∀ s, readValue (fuel + 1) (' ' :: (renderAt depth v ++ ',' :: s)) = some (v, ',' :: s) := by
      intro s
      rw [readValue_space]
      exact hv depth fuel _ (endsNumber_comma s) (by omega)
    have hLess : (renderAt depth f.2 ++ renderFields depth fs).length < fuel := by
      rw [List.length_append]
      omega
    have hRest := ih (k := f.1) (hfs f List.mem_cons_self) (fun g hg => hfs g (List.mem_cons_of_mem f hg)) hLess
    rw [hText, readFields, skipSpace_newline, quote_append, skipSpace_cons (by decide)]
    simp only [readString_flatMap, skipSpace_cons (show isSpace ':' = false by decide), hValue,
      skipSpace_cons (show isSpace ',' = false by decide), String.ofList_toList, hRest, Option.map_some]

/-! ## Documents -/

theorem readsBack_array {items : List Json} (h : ∀ i ∈ items, ReadsBack i) : ReadsBack (array items) := by
  intro depth fuel rest _ hFuel
  cases items with
  | nil => simp [renderAt, readValue, skipSpace, isSpace]
  | cons i is =>
    have hText : ∀ s, renderAt depth (array (i :: is)) ++ s = '[' :: (newline (depth + 1) ++
        (renderAt (depth + 1) i ++ (renderItems (depth + 1) is ++ (newline depth ++ ']' :: s)))) := fun s => by
      simp [renderAt]
    have hLength := congrArg List.length (hText [])
    simp only [List.length_append, List.length_cons, List.length_nil] at hLength
    obtain ⟨fuel, rfl⟩ := Nat.exists_eq_succ_of_ne_zero (show fuel ≠ 0 by omega)
    have hLess : (renderAt (depth + 1) i ++ renderItems (depth + 1) is).length < fuel := by
      rw [List.length_append]
      omega
    have hItems := readItems_render (h i List.mem_cons_self) (fun k hk => h k (List.mem_cons_of_mem i hk)) depth rest
      hLess
    have hOpen : ∀ t, skipSpace (newline (depth + 1) ++ (renderAt (depth + 1) i ++ (renderItems (depth + 1) is ++
        (newline depth ++ ']' :: rest)))) ≠ ']' :: t := fun t => by
      rw [skipSpace_newline]
      exact (h i List.mem_cons_self).skipSpace_ne (endsNumber_renderItems _ _ _ _) t
    rw [hText, readValue_array hOpen, hItems]
    rfl

theorem readsBack_object {fields : List (String × Json)} (h : ∀ f ∈ fields, ReadsBack f.2) :
    ReadsBack (object fields) := by
  intro depth fuel rest _ hFuel
  cases fields with
  | nil => simp [renderAt, readValue, skipSpace, isSpace]
  | cons f fs =>
    have hText : ∀ s, renderAt depth (object (f :: fs)) ++ s = '\x7b' :: (newline (depth + 1) ++
        (quote f.1.toList ++ (':' :: ' ' :: (renderAt (depth + 1) f.2 ++ (renderFields (depth + 1) fs ++
          (newline depth ++ '\x7d' :: s)))))) := fun s => by
      simp [renderAt]
    have hLength := congrArg List.length (hText [])
    simp only [List.length_append, List.length_cons, List.length_nil] at hLength
    obtain ⟨fuel, rfl⟩ := Nat.exists_eq_succ_of_ne_zero (show fuel ≠ 0 by omega)
    have hLess : (renderAt (depth + 1) f.2 ++ renderFields (depth + 1) fs).length < fuel := by
      rw [List.length_append]
      omega
    have hFields := readFields_render (k := f.1) (h f List.mem_cons_self)
      (fun g hg => h g (List.mem_cons_of_mem f hg)) depth rest hLess
    have hOpen : ∀ r t, skipSpace (newline (depth + 1) ++ (quote f.1.toList ++ r)) ≠ '\x7d' :: t := fun r t => by
      rw [skipSpace_newline, quote_append, skipSpace_cons (by decide)]
      simp
    rw [hText, readValue_object (hOpen _), hFields]
    rfl

theorem Writable.readsBack (h : j.Writable) : ReadsBack j := by
  induction h with
  | null =>
    intro depth fuel rest _ _
    rw [renderAt]
    rfl
  | bool b =>
    intro depth fuel rest _ _
    cases b <;> rw [renderAt] <;> rfl
  | natural hn => exact readsBack_natural hn
  | string s =>
    intro depth fuel rest _ _
    rw [renderAt, quote_append]
    show (readString (s.toList.flatMap escapeChar ++ '"' :: rest)).map
      (fun p => (Json.string (String.ofList p.1), p.2)) = _
    rw [readString_flatMap, Option.map_some, String.ofList_toList]
  | array _ ih => exact readsBack_array ih
  | object _ ih => exact readsBack_object ih

/-- A document is read back. -/
theorem parse?_render (h : j.Writable) : parse? j.render = some j := by
  have hRead := h.readsBack 0 (2 * j.render.length) [] (by simp [EndsNumber]) (by rw [render]; omega)
  rw [List.append_nil] at hRead
  rw [parse?, show readValue _ j.render = some (j, []) from hRead]
  rfl

end SqlSurvey.Json
