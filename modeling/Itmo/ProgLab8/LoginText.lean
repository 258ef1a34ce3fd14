import Itmo.ProgLab8.Account

/-! The name of a user in the texts of the account statements. A lexer reads the
name back exactly if there is no quote in it; a name with a quote ends its literal
early, or takes in what comes after it, and the rest of the name is read as SQL. -/

namespace Itmo.ProgLab8

open Lib

namespace Account

variable (digest : JString → List UInt8)

/-- The text is one statement with these literals. -/
def ReadsAs (text : JString) (values : List JString) : Prop :=
  ∃ tokens, lex quote text = some tokens ∧ SingleStatement semicolon tokens ∧
    literals tokens = values

/-- In every text that is built from them, the name and the digest are data. -/
structure LoginTextIsData (user password : JString) : Prop where
  logIn : ReadsAs (logInText user) [user]
  newUser : ReadsAs (newUserText user) [user]
  addUser : ReadsAs (addUserText digest user password) [user, hash256 digest password]

/-- Who is let in has a row with his name and the digest of his password. -/
def LoginSound (engine : Engine) (rows : List UserRow) (user password : JString) : Prop :=
  logIn engine digest rows user password = .ok true →
    ∃ row ∈ rows, row.owner = user ∧ row.password = hash256 digest password

variable {digest} {user : JString}

/-! ### Names without a quote -/

theorem char_mem_chars {c : UInt16} {s : JString} : .char c ∈ chars s ↔ c ∈ s := by
  simp [chars]

theorem readsAs_select {text : JString} {column : Column}
    (h : lex quote text = some (selectTokens column user)) : ReadsAs text [user] := by
  refine ⟨_, h, ⟨chars (.ofString "SELECT " ++ column.name ++
    .ofString " FROM userdata WHERE owner=") ++ [.literal user], ?_, ?_⟩, ?_⟩
  · rw [List.append_assoc]
    rfl
  · have hname : semicolon ∉ JString.ofString "SELECT " ++ column.name ++
        .ofString " FROM userdata WHERE owner=" := by
      cases column <;> decide
    rw [List.mem_append, char_mem_chars, not_or]
    exact ⟨hname, by simp⟩
  · cases column <;> rfl

theorem readsAs_insert {text password : JString}
    (h : lex quote text = some (insertTokens user password)) : ReadsAs text [user, password] := by
  refine ⟨_, h, ⟨chars (.ofString "INSERT INTO userdata VALUES(") ++
    .literal user :: (chars (.ofString ", ") ++ [.literal password, .char 0x29]), ?_, ?_⟩, ?_⟩
  · simp only [insertTokens, List.append_assoc, List.cons_append]
    rfl
  · have hinsert : semicolon ∉ JString.ofString "INSERT INTO userdata VALUES(" := by decide
    have hcomma : semicolon ∉ JString.ofString ", " := by decide
    have hparen : semicolon ≠ 0x29 := by decide
    simp [char_mem_chars, hinsert, hcomma, hparen]
  · rfl

theorem loginTextIsData (h : quote ∉ user) (password : JString) :
    LoginTextIsData digest user password :=
  ⟨readsAs_select (lex_logInText h), readsAs_select (lex_newUserText h),
    readsAs_insert (lex_addUserText digest h password)⟩

/-- The statement of a name without a quote finds the rows of this name only. -/
theorem loginSound {engine : Engine} (hengine : engine.Lawful) (rows : List UserRow)
    (h : quote ∉ user) (password : JString) : LoginSound digest engine rows user password := by
  intro hlogin
  unfold logIn at hlogin
  cases hquery : engine.executeQuery (logInText user) rows with
  | none =>
    rw [hquery] at hlogin
    cases hlogin
  | some values =>
    have hvalues := hengine.select (lex_logInText h) hquery
    rw [hquery] at hlogin
    cases hfound : rows.filter (·.owner = user) with
    | nil =>
      rw [hvalues, hfound] at hlogin
      cases hlogin
    | cons row rest =>
      rw [hvalues, hfound] at hlogin
      have hmem : row ∈ rows.filter (·.owner = user) := by
        rw [hfound]
        exact List.mem_cons_self
      rw [List.mem_filter, decide_eq_true_eq] at hmem
      refine ⟨row, hmem.1, hmem.2, ?_⟩
      simpa [Column.get] using hlogin

/-! ### All names -/

/-- The texts of a name are data, and only its owner gets in, exactly if there is
no quote in it. -/
theorem login_text_is_data_iff {engine : Engine} (hengine : engine.Lawful) (rows : List UserRow)
    (user password : JString) :
    (LoginTextIsData digest user password ∧ LoginSound digest engine rows user password) ↔
      quote ∉ user := by
  constructor
  · rintro ⟨⟨⟨tokens, hlex, -, hliterals⟩, -, -⟩, -⟩
    rw [logInText_eq] at hlex
    exact not_mem_of_literals (by decide) (by decide) hlex hliterals
  · intro h
    exact ⟨loginTextIsData h password, loginSound hengine rows h password⟩

/-! ### A name with a quote -/

/-- `SELECT column FROM userdata WHERE owner='owner' UNION SELECT 'value';` -/
def unionTokens (column : Column) (owner value : JString) : List (Token UInt16) :=
  chars (.ofString "SELECT " ++ column.name ++ .ofString " FROM userdata WHERE owner=") ++
    .literal owner :: (chars (.ofString " UNION SELECT ") ++ .literal value :: chars (.ofString ";"))

/-- An engine for the plain statements and a `UNION`, for concrete runs. -/
def unionEngine : Engine where
  executeQuery text rows := (lex quote text).bind fun tokens =>
    match literals tokens with
    | [owner] =>
      ([.password, .owner].find? fun column => tokens = selectTokens column owner).map fun column =>
        (rows.filter (·.owner = owner)).map fun row => some (column.get row)
    | [owner, value] =>
      ([.password, .owner].find? fun column => tokens = unionTokens column owner value).map
        fun column => ((rows.filter (·.owner = owner)).map column.get ++ [value]).eraseDups.map some
    | _ => none
  executeUpdate text rows := (lex quote text).bind fun tokens =>
    match literals tokens with
    | [owner, password] =>
      if tokens = insertTokens owner password then some (rows ++ [⟨owner, password⟩]) else none
    | _ => none

theorem selectTokens_ne (owner : JString) :
    selectTokens .password owner ≠ selectTokens .owner owner := by
  intro h
  have hseventh := congrArg (fun tokens => tokens[7]?) h
  change some (Token.char 0x70) = some (Token.char 0x6F) at hseventh
  simp at hseventh

theorem find_selectTokens (column : Column) (owner : JString) :
    ([.password, .owner].find? fun c => selectTokens column owner = selectTokens c owner) =
      some column := by
  cases column with
  | password => simp
  | owner => simp [(selectTokens_ne owner).symm]

theorem unionEngine_lawful : unionEngine.Lawful where
  select := by
    intro text column owner rows values hlex hquery
    have hliterals : literals (selectTokens column owner) = [owner] := by
      cases column <;> rfl
    simp only [unionEngine, hlex, Option.bind_some, hliterals, find_selectTokens,
      Option.map_some] at hquery
    exact (Option.some.inj hquery).symm
  insert := by
    intro text owner password rows rows' hlex hupdate
    have hliterals : literals (insertTokens owner password) = [owner, password] := rfl
    simp only [unionEngine, hlex, Option.bind_some, hliterals, if_true] at hupdate
    exact (Option.some.inj hupdate).symm

/-- The SHA-256 digest of `qwerty`, for concrete runs. -/
def qwertyDigest (word : JString) : List UInt8 :=
  if word = .ofString "qwerty" then
    [0x65, 0xe8, 0x4b, 0xe3, 0x35, 0x32, 0xfb, 0x78, 0x4c, 0x48, 0x12, 0x96, 0x75, 0xf9, 0xef, 0xf3,
      0xa6, 0x82, 0xb2, 0x71, 0x68, 0xc0, 0xea, 0x74, 0x4b, 0x2c, 0xf5, 0x8e, 0xe0, 0x23, 0x37, 0xc5]
  else []

/-- The name `egg` is data. -/
theorem login_text_is_data_egg :
    LoginTextIsData qwertyDigest (.ofString "egg") (.ofString "qwerty") ∧
      LoginSound qwertyDigest unionEngine [] (.ofString "egg") (.ofString "qwerty") :=
  (login_text_is_data_iff unionEngine_lawful [] _ _).mpr (by decide)

/-- A name that adds the digest of a known password to the answer. -/
def unionName : JString :=
  .ofString "' UNION SELECT '" ++ hash256 qwertyDigest (.ofString "qwerty")

/-- It gets in although nobody is registered. -/
theorem login_by_injection : unionEngine.Lawful ∧
    logIn unionEngine qwertyDigest [] unionName (.ofString "qwerty") = .ok true ∧
    ¬ (LoginTextIsData qwertyDigest unionName (.ofString "qwerty") ∧
      LoginSound qwertyDigest unionEngine [] unionName (.ofString "qwerty")) := by
  have hlogin : logIn unionEngine qwertyDigest [] unionName (.ofString "qwerty") = .ok true := by
    decide +kernel
  refine ⟨unionEngine_lawful, hlogin, ?_⟩
  rintro ⟨-, hsound⟩
  obtain ⟨row, hrow, -⟩ := hsound hlogin
  cases hrow

end Account

end Itmo.ProgLab8
