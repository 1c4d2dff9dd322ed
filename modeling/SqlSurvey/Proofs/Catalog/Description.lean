import SqlSurvey.Catalog.Basic
import SqlSurvey.Proofs.Sql.Layout
import SqlSurvey.Proofs.Sql.Statements

/-!
# Descriptions

What the description in a documentation comment is made of: a stretch of the text between the marks of the comment,
within one line and before any at sign. A comment without tags lacks a description just when each of its lines is a
margin: stars in one run, with blanks around them. Stars with blanks between them are text.
-/

namespace SqlSurvey

open Text (isBlank trim)

variable {inner line d : List Char}

/-- A documentation comment with a text between its marks. -/
def docComment (inner : List Char) : List Char := ['/', '*', '*'] ++ inner ++ ['*', '/']

/-- The lines of a comment. -/
def commentLines (inner : List Char) : List (List Char) := inner.splitOnP fun c => c == '\n'

/-- A line without text: blanks, then stars, then blanks. -/
def IsMargin (line : List Char) : Prop :=
  ∃ l stars r, line = l ++ stars ++ r ∧ (∀ c ∈ l, isBlank c = true) ∧ (∀ c ∈ stars, c = '*') ∧
    ∀ c ∈ r, isBlank c = true

/-! ## Lines -/

theorem infix_commentLine (line : List Char) : commentLine line <:+: line :=
  (Sql.infix_trim _).trans ((List.dropWhile_suffix _).isInfix.trans (Sql.infix_trim line))

/-- No text is left of a line just when it is a margin. -/
theorem commentLine_eq_nil_iff : commentLine line = [] ↔ IsMargin line := by
  rw [commentLine, Text.trim_eq_nil_iff]
  constructor
  · intro h
    obtain ⟨l, r, hLine, hl, hr⟩ := Text.exists_eq_append_trim line
    -- behind the first run of stars there are only blanks
    have hSplit := List.takeWhile_append_dropWhile (p := fun c => c == '*') (l := trim line)
    refine ⟨l, (trim line).takeWhile fun c => c == '*', ((trim line).dropWhile fun c => c == '*') ++ r, ?_, hl, ?_,
      List.forall_mem_append.2 ⟨h, hr⟩⟩
    · rw [List.append_assoc, ← List.append_assoc (List.takeWhile _ _), hSplit, ← List.append_assoc]
      exact hLine
    · exact fun c hc => by simpa using List.mem_takeWhile_imp hc
  · rintro ⟨l, stars, r, rfl, hl, hStars, hr⟩
    have hTrim : trim stars = stars := Text.trim_of_forall fun c hc => by rw [hStars c hc]; decide
    have hDrop : stars.dropWhile (fun c => c == '*') = [] :=
      List.dropWhile_eq_nil_iff.2 fun c hc => by simp [hStars c hc]
    rw [Text.trim_append_blanks hl hr, hTrim, hDrop]
    exact List.forall_mem_nil _

/-! ## The description of a comment -/

/-- What is left of a line with text, up to the first at sign, if it is anything. -/
def lineDescription? (text : List Char) : Option (List Char) :=
  let d := trim (text.takeWhile fun c => c != '@')
  if d.isEmpty then none else some d

/-- The marks of a comment are no part of what is read. -/
theorem description?_docComment (inner : List Char) : description? (docComment inner) =
    (((commentLines inner).map commentLine).find? fun l => !l.isEmpty).bind lineDescription? := by
  have hTrim : trim (docComment inner) = docComment inner := by
    refine Text.trim_eq_self (fun c hc => ?_) fun c hc => ?_
    · obtain rfl : '/' = c := Option.some.inj hc
      decide
    · rw [docComment, List.getLast?_append_of_ne_nil _ (List.cons_ne_nil _ _)] at hc
      obtain rfl : '/' = c := Option.some.inj hc
      decide
  have hOpen : ['/', '*', '*'].isPrefixOf? (docComment inner) = some (inner ++ ['*', '/']) := by
    simp [docComment, List.isPrefixOf?]
  have hClose : withoutEnding ['*', '/'] (inner ++ ['*', '/']) = inner := by
    rw [withoutEnding, if_pos (List.isSuffixOf_iff_suffix.2 (List.suffix_append _ _)), List.length_append,
      Nat.add_sub_cancel, List.take_left]
  rw [description?, hTrim, hOpen]
  simp only [Option.bind_eq_bind, Option.bind_some, hClose]
  rfl

theorem lineDescription?_eq_some (h : lineDescription? line = some d) :
    d ≠ [] ∧ d = trim (line.takeWhile fun c => c != '@') := by
  unfold lineDescription? at h
  dsimp only at h
  split at h
  · cases h
  · rename_i hNonempty
    obtain rfl := Option.some.inj h
    exact ⟨fun hNil => hNonempty (by rw [hNil]; rfl), rfl⟩

/-- Without a tag, what is left of a line is its description. -/
theorem lineDescription?_ne_none (hTrim : trim line = line) (hNonempty : line ≠ []) (hTag : '@' ∉ line) :
    lineDescription? line ≠ none := by
  have hAll : line.takeWhile (fun c => c != '@') = line :=
    List.takeWhile_eq_self_iff.2 fun c hc => by simpa using fun h : c = '@' => hTag (h ▸ hc)
  simp [lineDescription?, hAll, hTrim, hNonempty]

/-- A comment without tags has no description just when all its lines are margins. A description is never empty,
is trimmed, stands in one line of the comment, between its marks, and holds no at sign. -/
theorem description?_docComment_stretch (inner : List Char) :
    ('@' ∉ inner → (description? (docComment inner) = none ↔ ∀ line ∈ commentLines inner, IsMargin line)) ∧
      ∀ d, description? (docComment inner) = some d →
        d ≠ [] ∧ trim d = d ∧ '\n' ∉ d ∧ '@' ∉ d ∧ d <:+: inner := by
  rw [description?_docComment]
  refine ⟨fun hTag => ?_, fun d h => ?_⟩
  · have hMargins : (((commentLines inner).map commentLine).find? fun l => !l.isEmpty) = none ↔
        ∀ line ∈ commentLines inner, IsMargin line := by
      simp [← commentLine_eq_nil_iff]
    rw [← hMargins]
    refine ⟨fun h => ?_, fun h => by rw [h, Option.bind_none]⟩
    by_contra hText
    obtain ⟨text, hFound⟩ := Option.ne_none_iff_exists'.1 hText
    obtain ⟨line, hLine, rfl⟩ := List.mem_map.1 (List.mem_of_find?_eq_some hFound)
    have hNonempty : commentLine line ≠ [] := by simpa using List.find?_some hFound
    have hPart := (infix_commentLine line).trans (Sql.infix_of_mem_splitOnP hLine)
    rw [hFound, Option.bind_some] at h
    exact lineDescription?_ne_none (Text.trim_trim _) hNonempty (fun hMem => hTag (hPart.subset hMem)) h
  · obtain ⟨text, hFound, hText⟩ := Option.bind_eq_some_iff.1 h
    obtain ⟨line, hLine, rfl⟩ := List.mem_map.1 (List.mem_of_find?_eq_some hFound)
    obtain ⟨hNonempty, rfl⟩ := lineDescription?_eq_some hText
    -- trimming, cutting and trimming again take stretches of a stretch
    have hCut : trim ((commentLine line).takeWhile fun c => c != '@') <:+:
        (commentLine line).takeWhile fun c => c != '@' := Sql.infix_trim _
    have hPart := hCut.trans ((List.takeWhile_prefix _).isInfix.trans (infix_commentLine line))
    refine ⟨hNonempty, Text.trim_trim _, fun hMem => ?_, fun hMem => ?_,
      hPart.trans (Sql.infix_of_mem_splitOnP hLine)⟩
    · simpa using Sql.not_of_mem_splitOnP hLine _ (hPart.subset hMem)
    · simpa using List.mem_takeWhile_imp (hCut.subset hMem)

/-- A comment of stars in several lines, and one whose text follows a star of its own. -/
theorem description?_docComment_stretch_margins :
    description? (docComment "***\n *\n ** \n".toList) = none ∧
      (description? (docComment "\n * * Users @internal\n ".toList) = some "* Users".toList ∧
        "* Users".toList <:+: "\n * * Users @internal\n ".toList) := by
  have hText : description? (docComment "\n * * Users @internal\n ".toList) = some "* Users".toList := by
    decide +kernel
  refine ⟨((description?_docComment_stretch _).1 (by decide)).2 fun line hLine => ?_, hText, ?_⟩
  · have hLines : line ∈ ["***".toList, " *".toList, " ** ".toList, []] := hLine
    simp only [List.mem_cons, List.not_mem_nil, or_false] at hLines
    rcases hLines with rfl | rfl | rfl | rfl
    · exact ⟨[], "***".toList, [], rfl, by decide, by decide, by decide⟩
    · exact ⟨" ".toList, "*".toList, [], rfl, by decide, by decide, by decide⟩
    · exact ⟨" ".toList, "**".toList, " ".toList, rfl, by decide, by decide, by decide⟩
    · exact ⟨[], [], [], rfl, by decide, by decide, by decide⟩
  · exact ((description?_docComment_stretch _).2 _ hText).2.2.2.2

/-- A comment of nothing but stars and blanks with a description: stars with a blank between them are text. -/
theorem description?_docComment_stars :
    (∀ c ∈ " * * ".toList, c = '*' ∨ isBlank c = true) ∧ ¬ ['*', '/'] <:+: '*' :: " * * ".toList ∧
      description? (docComment " * * ".toList) = some "*".toList := by
  decide +kernel

end SqlSurvey
