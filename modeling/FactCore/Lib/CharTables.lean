/-!
# Character tables

What Python knows of the characters of a text. Beyond ASCII its tables are left open.
-/

structure CharTables where
  /-- `str.isdigit`, of one character. -/
  isDigit : Char → Bool
  /-- `\d` in a regular expression. -/
  isDecimal : Char → Bool
  /-- `\w` in a regular expression. -/
  isWord : Char → Bool
  /-- `str.lower`. -/
  lower : String → String
  isDigit_ascii : ∀ c, c.toNat < 128 → isDigit c = c.isDigit
  isDecimal_ascii : ∀ c, c.toNat < 128 → isDecimal c = c.isDigit
  isWord_ascii : ∀ c, c.toNat < 128 → isWord c = (c.isAlphanum || decide (c = '_'))
  lower_ascii : ∀ s : String, (∀ c ∈ s.toList, c.toNat < 128) →
    lower s = String.ofList (s.toList.map Char.toLower)

namespace CharTables

/-- The tables that know no character beyond ASCII. -/
def ascii : CharTables where
  isDigit := Char.isDigit
  isDecimal := Char.isDigit
  isWord c := c.isAlphanum || decide (c = '_')
  lower s := String.ofList (s.toList.map Char.toLower)
  isDigit_ascii _ _ := rfl
  isDecimal_ascii _ _ := rfl
  isWord_ascii _ _ := rfl
  lower_ascii _ _ := rfl

/-- `str.isdigit`. -/
def allDigits (tables : CharTables) (s : String) : Bool :=
  !s.toList.isEmpty && s.toList.all tables.isDigit

end CharTables
