/-
PascalSurvey/Sql/Reserved.lean

The reserved words of the Firebird server.  A quoted identifier is written in upper case,
which is how the server keeps names that are not quoted, so a word and its quoted form name
the same column.
-/
import PascalSurvey.Text.Blank

namespace PascalSurvey.Sql

/-- A table of reserved words, in upper case and each once. -/
structure ReservedWords where
  words : List Text
  deriving Repr

namespace ReservedWords

/-- The words that the server reserves. -/
def firebirdWords : List Text :=
  Text.ofStrings
    ["ADD", "ADMIN", "ALL", "ALTER", "AND", "ANY", "AS", "AT", "AVG", "BEGIN", "BETWEEN", "BIGINT",
      "BIT_LENGTH", "BLOB", "BOOLEAN", "BOTH", "BY", "CASE", "CAST", "CHAR", "CHAR_LENGTH",
      "CHARACTER", "CHARACTER_LENGTH", "CHECK", "CLOSE", "COLLATE", "COLUMN", "COMMIT", "CONNECT",
      "CONSTRAINT", "CORR", "COUNT", "COVAR_POP", "COVAR_SAMP", "CREATE", "CROSS", "CURRENT",
      "CURRENT_CONNECTION", "CURRENT_DATE", "CURRENT_ROLE", "CURRENT_TIME", "CURRENT_TIMESTAMP",
      "CURRENT_TRANSACTION", "CURRENT_USER", "CURSOR", "DATE", "DAY", "DEC", "DECIMAL", "DECLARE",
      "DEFAULT", "DELETE", "DELETING", "DETERMINISTIC", "DISCONNECT", "DISTINCT", "DOUBLE", "DROP",
      "ELSE", "END", "ESCAPE", "EXECUTE", "EXISTS", "EXTERNAL", "EXTRACT", "FALSE", "FETCH",
      "FILTER", "FLOAT", "FOR", "FOREIGN", "FROM", "FULL", "FUNCTION", "GDSCODE", "GLOBAL", "GRANT",
      "GROUP", "HAVING", "HOUR", "IN", "INDEX", "INNER", "INSENSITIVE", "INSERT", "INSERTING",
      "INT", "INTEGER", "INTO", "IS", "JOIN", "KEY", "LEADING", "LEFT", "LIKE", "LONG", "LOWER",
      "MAX", "MERGE", "MIN", "MINUTE", "MONTH", "NATIONAL", "NATURAL", "NCHAR", "NO", "NOT", "NULL",
      "NUMERIC", "OCTET_LENGTH", "OF", "OFFSET", "ON", "ONLY", "OPEN", "OR", "ORDER", "OUTER",
      "OVER", "PARAMETER", "PASSWORD", "PLAN", "POSITION", "POST_EVENT", "PRECISION", "PRIMARY",
      "PROCEDURE", "RDB$DB_KEY", "RDB$RECORD_VERSION", "REAL", "RECORD_VERSION", "RECREATE",
      "RECURSIVE", "REFERENCES", "REGR_AVGX", "REGR_AVGY", "REGR_COUNT", "REGR_INTERCEPT",
      "REGR_R2", "REGR_SLOPE", "REGR_SXX", "REGR_SXY", "REGR_SYY", "RELEASE", "RETURNING_VALUES",
      "RETURNS", "REVOKE", "RIGHT", "ROLLBACK", "ROW", "ROW_COUNT", "ROWS", "SAVEPOINT", "SCROLL",
      "SECOND", "SELECT", "SENSITIVE", "SET", "SIMILAR", "SMALLINT", "SOME", "SQLCODE", "SQLSTATE",
      "START", "STDDEV_POP", "STDDEV_SAMP", "SUM", "TABLE", "THEN", "TIME", "TIMESTAMP", "TO",
      "TRAILING", "TRIGGER", "TRIM", "TRUE", "UNION", "UNIQUE", "UNKNOWN", "UPDATE", "UPDATING",
      "UPPER", "USER", "USING", "VALUE", "VALUES", "VAR_POP", "VAR_SAMP", "VARCHAR", "VARIABLE",
      "VARYING", "VIEW", "WHEN", "WHERE", "WHILE", "WITH", "YEAR"]

/-- The table of the server. -/
def firebird : ReservedWords := ⟨firebirdWords.eraseDups⟩

/-- The table of the server and further words, in any case; blank ones do not count. -/
def withExtra (extra : List Text) : ReservedWords :=
  let more := (extra.map fun w => Text.toUpper (Text.trim w)).filter (!·.isEmpty)
  ⟨(firebirdWords ++ more).eraseDups⟩

def contains (table : ReservedWords) (word : Text) : Bool :=
  table.words.contains (Text.toUpper word)

def size (table : ReservedWords) : Nat := table.words.length

def isEmpty (table : ReservedWords) : Bool := table.words.isEmpty

end ReservedWords

/-- A word in double quotes and upper case. -/
def quoted (word : Text) : Text := Ascii.doubleQuote :: Text.toUpper word ++ [Ascii.doubleQuote]

/-- Whether a word stands in double quotes. -/
def isQuoted (word : Text) : Bool :=
  2 ≤ word.length && word.head? == some Ascii.doubleQuote &&
  word.getLast? == some Ascii.doubleQuote

/-- A word, quoted if the table reserves it. -/
def ReservedWords.quoteIfReserved (table : ReservedWords) (word : Text) : Text :=
  if isQuoted word || !table.contains word then word else quoted word

end PascalSurvey.Sql
