import SqlSurvey.Schema.Recovery
import SqlSurvey.Proofs.Sql.Statements

/-!
# Statements packed into texts

A schema does not depend on how statements are spread over texts: a closed text and a text after its semicolon
leave behind what the two texts leave behind one after the other.
-/

namespace SqlSurvey.Schema

/-- Two texts with a semicolon between act as one after the other, for they have the same statements, and each
statement stands for itself: it is trimmed, not empty, and not cut again. -/
theorem afterText_append_semicolon (s : Schema) {a : List Char} (ha : Sql.Closed Sql.isAnyQuote a) (b : List Char) :
    s.afterText (a ++ ';' :: b) = (s.afterText a).afterText b ∧
      Sql.statements (a ++ ';' :: b) = Sql.statements a ++ Sql.statements b ∧
      ∀ text, ∀ t ∈ Sql.statements text, t ≠ [] ∧ Text.trim t = t ∧ Sql.statements t = [t] := by
  have hStatements := Sql.statements_append_semicolon ha b
  refine ⟨?_, hStatements, fun text t ht => Sql.statements_of_mem_statements ht⟩
  show (Sql.statements (a ++ ';' :: b)).foldl afterStatement s = _
  rw [hStatements, List.foldl_append]
  rfl

/-- Semicolons in a string and in both kinds of comment, an empty statement, and a last text with a quote that is
not closed. -/
theorem afterText_append_semicolon_open :
    Sql.Closed Sql.isAnyQuote "CREATE TABLE t (a TEXT DEFAULT ';') /* ; */; -- x;y\n".toList ∧
      empty.afterText "CREATE TABLE t (a TEXT DEFAULT ';') /* ; */; -- x;y\n;INSERT INTO t VALUES ('; ".toList =
        (empty.afterText "CREATE TABLE t (a TEXT DEFAULT ';') /* ; */; -- x;y\n".toList).afterText
          "INSERT INTO t VALUES ('; ".toList := by
  have hClosed : Sql.Closed Sql.isAnyQuote "CREATE TABLE t (a TEXT DEFAULT ';') /* ; */; -- x;y\n".toList := by
    decide +kernel
  refine ⟨hClosed, ?_⟩
  have h := (afterText_append_semicolon empty hClosed "INSERT INTO t VALUES ('; ".toList).1
  simpa using h

end SqlSurvey.Schema
