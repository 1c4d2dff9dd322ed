import SqlSurvey.Ddl.Table
import SqlSurvey.Proofs.Ddl.Phrase
import SqlSurvey.Proofs.Sql.Items

/-!
# Reading tables

The head of a statement that creates a table is read up to the parenthesis that opens the body, and the
body is read through its items, on which comments have no influence.
-/

namespace SqlSurvey.Ddl

open Pattern

variable {w : List Char}

/-- The head of a statement that creates a table gives its name, whatever word that is. -/
theorem find_createTableHead (hw : w ≠ []) (hWord : ∀ c ∈ w, Text.isWordChar c = true) (r : List Char) :
    createTableHead.find ("CREATE TABLE ".toList ++ w ++ " (".toList ++ r) =
      some ⟨"CREATE TABLE ".toList ++ w ++ " (".toList, [(1, w)], r⟩ := by
  have hParen : (exactly '(').Takes empty ['('] [] r := takes_char (by rfl) empty r
  have hGap : gap.Takes (exactly '(' ++ empty) [' '] [] (['('] ++ r) :=
    takes_gap (by decide) (by simp; decide) ((refuses_exactly (by decide)).append empty)
  have hName : (name 1).Takes (gap ++ (exactly '(' ++ empty)) w [(1, w)] ([' '] ++ (['('] ++ r)) :=
    takes_name 1 hw hWord (by simp; decide)
      (refuses_blanks.maybe_append ((refuses_exactly (by decide)).append empty))
  -- a table may be called like the first word of what could stand here
  have hIf : ifNotExists.Takes (name 1 ++ (gap ++ (exactly '(' ++ empty))) [] []
      (w ++ ([' '] ++ (['('] ++ r))) := takes_ifNotExists_nil hWord (by decide) (by decide) _
  have hBlanks : blanks.Takes (ifNotExists ++ (name 1 ++ (gap ++ (exactly '(' ++ empty)))) [' '] []
      ([] ++ (w ++ ([' '] ++ (['('] ++ r)))) :=
    takes_space (Text.isBlank_head_append hw hWord _) _
  have hPhrase : (phrase "CREATE" ["TABLE"]).Takes
      (blanks ++ (ifNotExists ++ (name 1 ++ (gap ++ (exactly '(' ++ empty)))))
      ("CREATE".toList ++ [' '] ++ "TABLE".toList) [] ([' '] ++ ([] ++ (w ++ ([' '] ++ (['('] ++ r))))) :=
    takes_phrase (by decide) (by decide) (by decide) _ _
  have hAll : createTableHead.Takes empty _ _ r :=
    ((((hPhrase.append hBlanks).append hIf).append hName).append hGap).append hParen
  have hText : "CREATE TABLE ".toList ++ w ++ " (".toList =
      "CREATE".toList ++ [' '] ++ "TABLE".toList ++ [' '] ++ [] ++ w ++ [' '] ++ ['('] := by
    simp
  rw [hText, hAll.find]
  rfl

/-- Comments inside the body of a table make no difference to the table that is read. -/
theorem readTable?_withoutComments (w body tail : List Char) (hw : w ≠ [])
    (hWord : ∀ c ∈ w, Text.isWordChar c = true) (hClosed : Sql.Closed Sql.isSingleQuote body)
    (hBalanced : Sql.balanced 0 (Sql.pieces Sql.isSingleQuote body) = true) :
    readTable? ("CREATE TABLE ".toList ++ w ++ " (".toList ++ (body ++ ')' :: tail)) =
      readTable? ("CREATE TABLE ".toList ++ w ++ " (".toList ++
        (Sql.withoutComments body ++ ')' :: tail)) := by
  have hBare := Sql.bodyAfterParen_append (Sql.closed_withoutComments hClosed)
    (by rw [Sql.pieces_withoutComments, Sql.balanced_map_bare, hBalanced]) tail
  unfold readTable?
  rw [find_createTableHead hw hWord, find_createTableHead hw hWord]
  simp only [Option.bind_eq_bind, Option.bind_some]
  rw [Sql.bodyAfterParen_append hClosed hBalanced, hBare]
  simp only [Option.bind_some]
  rw [Sql.items_withoutComments]
  rfl

/-- A comment with an apostrophe, a comma and a parenthesis in it, and a default after it. -/
theorem readTable?_withoutComments_default :
    readTable? "CREATE TABLE t (a INT, -- isn't, (\n b INT /* ) */ DEFAULT ',')".toList =
      readTable? "CREATE TABLE t (a INT,  \n b INT   DEFAULT ',')".toList := by
  have h := readTable?_withoutComments ['t'] "a INT, -- isn't, (\n b INT /* ) */ DEFAULT ','".toList []
    (by simp) (by decide) (by decide +kernel) (by decide +kernel)
  have hBare : Sql.withoutComments "a INT, -- isn't, (\n b INT /* ) */ DEFAULT ','".toList =
      "a INT,  \n b INT   DEFAULT ','".toList := by decide +kernel
  rw [hBare] at h
  simpa using h

end SqlSurvey.Ddl
