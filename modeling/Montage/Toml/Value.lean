import Montage.Numeric.Binary64

/-!
# Values of a settings file

A settings file is a table of values under keys. A table remembers how it came to be, because that
decides whether later lines may still add to it.
-/

set_option autoImplicit false
set_option relaxedAutoImplicit false

namespace Montage.Toml

/-- How a table came to be. -/
inductive TableForm where
  /-- It lies above a table with a header. -/
  | implied
  /-- It lies on the way of a key with several parts. -/
  | dotted
  /-- It has a header of its own, or is an item of a list of tables. -/
  | headed
  /-- It is written between braces, and complete. -/
  | braced
deriving DecidableEq, Repr

/-- A value. -/
inductive Value where
  /-- A text. -/
  | text (characters : String)
  /-- A whole number. -/
  | integer (value : Int)
  /-- A number with a fraction or an exponent. -/
  | real (value : Numeric.Binary64)
  /-- A truth value. -/
  | boolean (value : Bool)
  /-- A date, a time or both, as written. -/
  | moment (characters : String)
  /-- A list between brackets. -/
  | array (items : List Value)
  /-- A table, as its keys and their values. -/
  | table (form : TableForm) (entries : List (String × Value))
  /-- A list of tables, each with a header of its own. -/
  | tables (items : List (List (String × Value)))
deriving Repr

/-- The keys of a table and their values, in order. -/
abbrev Entries := List (String × Value)

end Montage.Toml
