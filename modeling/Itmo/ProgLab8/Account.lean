import Itmo.Lib.Literal
import Itmo.ProgLab8.DatabaseWorker

/-! Accounts. Unlike the statements on routes, those on `userdata` are texts put
together from the name and the digest, and what a text means is up to the
database: the engine is a parameter, bound to carry out the plain statements of
the three methods on the literals that a lexer reads in them. The digest of the
platform is a parameter too. -/

namespace Itmo.ProgLab8

open Lib

/-! ### Texts -/

/-- The apostrophe. -/
def quote : UInt16 := 0x27

def semicolon : UInt16 := 0x3B

namespace Account

/-- `Character.forDigit` with radix 16. -/
def forDigit (n : ℕ) : UInt16 := if n < 10 then (0x30 + n).toUInt16 else (0x57 + n).toUInt16

def byteToHex (num : UInt8) : JString :=
  [forDigit (num >>> 4 &&& 0xF).toNat, forDigit (num &&& 0xF).toNat]

def encodeHexString (byteArray : List UInt8) : JString := byteArray.flatMap byteToHex

def hash256 (digest : JString → List UInt8) (word : JString) : JString :=
  encodeHexString (digest word)

def logInText (user : JString) : JString :=
  .ofString "SELECT password FROM userdata WHERE owner='" ++ user ++ .ofString "';"

def newUserText (user : JString) : JString :=
  .ofString "SELECT owner FROM userdata WHERE owner='" ++ user ++ .ofString "';"

def addUserText (digest : JString → List UInt8) (user password : JString) : JString :=
  .ofString "INSERT INTO userdata VALUES('" ++ user ++ .ofString "', '" ++
    hash256 digest password ++ .ofString "');"

end Account

/-! ### The engine -/

/-- What the database makes of a text on the rows of `userdata`: the values of the
column asked for, some of which may be null, or the new rows; `none` is an
`SQLException`. -/
structure Engine where
  executeQuery : JString → List UserRow → Option (List (Option JString))
  executeUpdate : JString → List UserRow → Option (List UserRow)

def chars (s : JString) : List (Token UInt16) := s.map .char

inductive Column where
  | password
  | owner
  deriving DecidableEq

def Column.name : Column → JString
  | .password => .ofString "password"
  | .owner => .ofString "owner"

def Column.get : Column → UserRow → JString
  | .password => UserRow.password
  | .owner => UserRow.owner

/-- `SELECT column FROM userdata WHERE owner='owner';` -/
def selectTokens (column : Column) (owner : JString) : List (Token UInt16) :=
  chars (.ofString "SELECT " ++ column.name ++ .ofString " FROM userdata WHERE owner=") ++
    .literal owner :: chars (.ofString ";")

/-- `INSERT INTO userdata VALUES('owner', 'password');` -/
def insertTokens (owner password : JString) : List (Token UInt16) :=
  chars (.ofString "INSERT INTO userdata VALUES(") ++
    .literal owner :: (chars (.ofString ", ") ++ .literal password :: chars (.ofString ");"))

/-- A plain statement that does not fail is carried out. -/
structure Engine.Lawful (engine : Engine) : Prop where
  select : ∀ {text column owner rows values}, lex quote text = some (selectTokens column owner) →
    engine.executeQuery text rows = some values →
    values = (rows.filter (·.owner = owner)).map fun row => some (column.get row)
  insert : ∀ {text owner password rows rows'},
    lex quote text = some (insertTokens owner password) →
    engine.executeUpdate text rows = some rows' → rows' = rows ++ [⟨owner, password⟩]

/-! ### Methods -/

namespace Account

variable (engine : Engine) (digest : JString → List UInt8)

/-- The first row of the answer decides; without one, `getString` throws. -/
def logIn (rows : List UserRow) (user password : JString) : Except Throwable Bool :=
  match engine.executeQuery (logInText user) rows with
  | none => .ok false
  | some [] => .ok false
  | some (none :: _) => .error .NullPointerException
  | some (some stored :: _) => .ok (stored = hash256 digest password)

/-- The first half of `newUser`: whether it goes on to `addUser`. -/
def mayAdd (rows : List UserRow) (user : JString) : Bool :=
  match engine.executeQuery (newUserText user) rows with
  | none => false
  | some values => values.isEmpty

/-- The statement of `addUser`. -/
def insertUser (rows : List UserRow) (user password : JString) : Option (List UserRow) :=
  engine.executeUpdate (addUserText digest user password) rows

end Account

/-! ### Names without a quote -/

namespace Account

theorem forDigit_ne_quote {n : ℕ} (h : n < 16) : forDigit n ≠ quote := by
  have hall : ∀ m < 16, forDigit m ≠ quote := by decide
  exact hall n h

theorem quote_not_mem_hash256 (digest : JString → List UInt8) (word : JString) :
    quote ∉ hash256 digest word := by
  have hnibble : ∀ b : UInt8, (b &&& 0xF).toNat < 16 := by
    intro b
    rw [UInt8.toNat_and]
    exact Nat.lt_succ_of_le Nat.and_le_right
  unfold hash256 encodeHexString
  rw [List.mem_flatMap]
  rintro ⟨b, -, hb⟩
  rw [byteToHex, List.mem_cons, List.mem_singleton] at hb
  rcases hb with hb | hb
  · exact forDigit_ne_quote (hnibble _) hb.symm
  · exact forDigit_ne_quote (hnibble _) hb.symm

/-- A literal between plain texts. -/
theorem lex_literal (pre : JString) (hpre : quote ∉ pre) {user : JString} (hu : quote ∉ user)
    {c : UInt16} (hc : c ≠ quote) (cs : JString) :
    lex quote (pre ++ quote :: (user ++ quote :: c :: cs)) =
      (lex quote (c :: cs)).map fun tokens => chars pre ++ .literal user :: tokens := by
  unfold lex
  rw [lexFrom_outside_append hpre, lexFrom_literal hu hc, Option.map_map]
  rfl

/-- A text that goes on with a quote, a literal and the end of a statement. -/
theorem text_eq {a pre post : String} {c : UInt16} {cs : JString}
    (ha : JString.ofString a = .ofString pre ++ [quote])
    (hpost : JString.ofString post = quote :: c :: cs) (user : JString) :
    JString.ofString a ++ user ++ .ofString post =
      .ofString pre ++ quote :: (user ++ quote :: c :: cs) := by
  rw [ha, hpost, List.append_assoc, List.append_assoc]
  rfl

theorem logInText_eq (user : JString) : logInText user =
    .ofString "SELECT password FROM userdata WHERE owner=" ++
      quote :: (user ++ quote :: semicolon :: []) :=
  text_eq (by decide) (by decide) user

theorem newUserText_eq (user : JString) : newUserText user =
    .ofString "SELECT owner FROM userdata WHERE owner=" ++
      quote :: (user ++ quote :: semicolon :: []) :=
  text_eq (by decide) (by decide) user

theorem addUserText_eq (digest : JString → List UInt8) (user password : JString) :
    addUserText digest user password = .ofString "INSERT INTO userdata VALUES(" ++
      quote :: (user ++ quote :: 0x2C :: (JString.ofString " " ++
        quote :: (hash256 digest password ++ quote :: 0x29 :: [semicolon]))) := by
  have hpre : JString.ofString "INSERT INTO userdata VALUES('" =
      .ofString "INSERT INTO userdata VALUES(" ++ [quote] := by decide
  have hmid : JString.ofString "', '" = quote :: 0x2C :: (JString.ofString " " ++ [quote]) := by decide
  have hpost : JString.ofString "');" = quote :: 0x29 :: [semicolon] := by decide
  rw [addUserText, hpre, hmid, hpost]
  simp only [List.append_assoc, List.cons_append, List.nil_append]

variable {user : JString}

theorem lex_logInText (h : quote ∉ user) :
    lex quote (logInText user) = some (selectTokens .password user) := by
  rw [logInText_eq, lex_literal _ (by decide) h (by decide)]
  rfl

theorem lex_newUserText (h : quote ∉ user) :
    lex quote (newUserText user) = some (selectTokens .owner user) := by
  rw [newUserText_eq, lex_literal _ (by decide) h (by decide)]
  rfl

theorem lex_addUserText (digest : JString → List UInt8) (h : quote ∉ user) (password : JString) :
    lex quote (addUserText digest user password) =
      some (insertTokens user (hash256 digest password)) := by
  have hhash := quote_not_mem_hash256 digest password
  have hrest : lex quote (0x2C :: (JString.ofString " " ++
      quote :: (hash256 digest password ++ quote :: 0x29 :: [semicolon]))) =
      some (chars (.ofString ", ") ++
        .literal (hash256 digest password) :: chars (.ofString ");")) := by
    refine (lex_literal (.ofString ", ") (by decide) hhash (by decide) [semicolon]).trans ?_
    rfl
  rw [addUserText_eq, lex_literal _ (by decide) h (by decide), hrest]
  rfl

end Account

end Itmo.ProgLab8
