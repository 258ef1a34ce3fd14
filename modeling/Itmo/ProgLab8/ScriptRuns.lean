import Itmo.ProgLab8.Script

/-! How a script ends. A run is followed command by command: what is thrown for a wrong
command or a failing connection is caught and becomes a part of the text, and what gets
through is either the end of the file within a route, which the caller of the script
reports, or comes from one of a few things that the code does not expect: a command line
of blanks, a route whose values pass the checks but not the constructors, a request
larger than the buffer, or an answer that is no text. A script without these gives its
text or ends within a route. -/

namespace Itmo.ProgLab8

open Lib Action
open ProgLab6 (Numbers isSpace)

variable {D : Type} [Numbers D]

/-! ### Pieces of a line -/

/-- A line without anything but white space. -/
def IsBlank (line : JString) : Prop := ∀ c ∈ line, isSpace c = true

theorem exists_spacePiece {s : JString} (h : ¬ IsBlank s) :
    ∃ x ∈ (spacePieces s).1 :: (spacePieces s).2, x ≠ [] := by
  induction s with
  | nil =>
    refine absurd ?_ h
    intro c hc
    cases hc
  | cons c s ih =>
    unfold spacePieces
    dsimp only
    by_cases hc : isSpace c
    · have hs : ¬ IsBlank s := by
        intro hs
        apply h
        intro d hd
        rcases List.mem_cons.mp hd with rfl | hd
        · exact hc
        · exact hs d hd
      obtain ⟨x, hx, hne⟩ := ih hs
      rw [if_pos hc]
      split_ifs
      · exact ⟨x, hx, hne⟩
      · exact ⟨x, List.mem_cons_of_mem _ hx, hne⟩
    · rw [if_neg hc]
      exact ⟨_, List.mem_cons_self, List.cons_ne_nil _ _⟩

theorem mem_rdropWhile {α : Type} {p : α → Bool} {l : List α} {x : α} (hx : x ∈ l)
    (hp : ¬ p x = true) : x ∈ l.rdropWhile p := by
  rw [List.rdropWhile, List.mem_reverse]
  have hsplit := List.takeWhile_append_dropWhile (p := p) (l := l.reverse)
  rw [← List.mem_reverse, ← hsplit, List.mem_append] at hx
  rcases hx with hx | hx
  · exact absurd (List.mem_takeWhile_imp hx) hp
  · exact hx

theorem exists_piece {s : JString} (h : ¬ IsBlank s) : ∃ x ∈ splitSpaces s, x ≠ [] := by
  unfold splitSpaces
  split_ifs with hspace
  · obtain ⟨x, hx, hne⟩ := exists_spacePiece h
    exact ⟨x, mem_rdropWhile hx (by simpa using hne), hne⟩
  · refine ⟨s, List.mem_singleton_self s, ?_⟩
    rintro rfl
    apply h
    intro c hc
    cases hc

/-- The name of the command among the pieces. -/
def namePiece : List JString → Option JString
  | [] => none
  | first :: rest => if first = [] then rest.head? else some first

theorem namePiece_of_not_blank {s : JString} (h : ¬ IsBlank s) :
    ∃ name, namePiece (splitSpaces s) = some name := by
  obtain ⟨x, hx, hne⟩ := exists_piece h
  cases hpieces : splitSpaces s with
  | nil =>
    rw [hpieces] at hx
    cases hx
  | cons first rest =>
    rw [hpieces] at hx
    unfold namePiece
    dsimp only
    by_cases hfirst : first = []
    · rw [if_pos hfirst]
      rcases List.mem_cons.mp hx with rfl | hx
      · exact absurd hfirst hne
      · obtain ⟨name, rest', rfl⟩ := List.exists_cons_of_ne_nil (List.ne_nil_of_mem hx)
        exact ⟨name, rfl⟩
    · rw [if_neg hfirst]
      exact ⟨first, rfl⟩

theorem CommandList.getCommandList_execute_script {name : JString}
    (h : getCommandList name = .EXECUTE_SCRIPT) : name = .ofString "execute_script" := by
  have hnames : ∀ n ∈ names, n.1 = .EXECUTE_SCRIPT → n.2 = "execute_script" := by decide
  unfold getCommandList at h
  cases hfind : names.find? fun n => name = .ofString n.2 with
  | none =>
    rw [hfind] at h
    cases h
  | some n =>
    rw [hfind] at h
    have hname : name = .ofString n.2 := by simpa using List.find?_some hfind
    rw [hname, hnames n (List.mem_of_find?_eq_some hfind) h]

/-! ### Routes -/

/-- What a reader of lines leaves is an end of them. -/
def Reads {α : Type} (m : StateT (List JString) Option α) (P : α → Prop) : Prop :=
  ∀ lines a lines', m.run lines = some (a, lines') → lines' <:+ lines ∧ P a

theorem Reads.bind {α β : Type} {m : StateT (List JString) Option α}
    {f : α → StateT (List JString) Option β} {P : α → Prop} {Q : β → Prop} (hm : Reads m P)
    (hf : ∀ a, P a → Reads (f a) Q) : Reads (m >>= f) Q := by
  intro lines b lines' h
  rw [StateT.run_bind] at h
  obtain ⟨⟨a, lines₁⟩, ha, hb⟩ := Option.bind_eq_some_iff.mp h
  obtain ⟨hsuffix, hP⟩ := hm lines a lines₁ ha
  obtain ⟨hsuffix', hQ⟩ := hf a hP lines₁ b lines' hb
  exact ⟨hsuffix'.trans hsuffix, hQ⟩

theorem reads_pure {α : Type} {a : α} {P : α → Prop} (h : P a) :
    Reads (pure a : StateT (List JString) Option α) P := by
  intro lines b lines' heq
  cases heq
  exact ⟨List.suffix_rfl, h⟩

namespace CreatingNewInstance

theorem reads_readUntil {α : Type} {accept : JString → Option α} {P : α → Prop}
    (h : ∀ line a, accept line = some a → P a) : Reads (readUntil accept) P := by
  intro lines
  induction lines with
  | nil =>
    intro a lines' heq
    cases heq
  | cons line lines ih =>
    intro a lines' heq
    cases haccept : accept line with
    | none =>
      have hstep : (readUntil accept).run (line :: lines) = (readUntil accept).run lines := by
        show readUntil accept (line :: lines) = readUntil accept lines
        rw [readUntil, haccept]
      rw [hstep] at heq
      obtain ⟨hsuffix, hP⟩ := ih a lines' heq
      exact ⟨hsuffix.trans (List.suffix_cons line lines), hP⟩
    | some b =>
      have hstep : (readUntil accept).run (line :: lines) = some (b, lines) := by
        show readUntil accept (line :: lines) = some (b, lines)
        rw [readUntil, haccept]
      rw [hstep] at heq
      cases heq
      exact ⟨List.suffix_cons line lines, h line a haccept⟩

theorem reads_inputString : Reads inputString (· ≠ []) :=
  reads_readUntil fun _ _ => ProgLab6.ValuesChecking.word_ne_nil

theorem reads_inputNumber (condition : D → Bool) :
    Reads (inputNumber condition) (condition · = true) :=
  reads_readUntil fun _ _ => ProgLab6.CreatingNewInstance.inputNumber_condition

/-- What the readers have checked, as far as a constructor checks it too. -/
def Checked (v : RouteValues D) : Prop :=
  v.rName ≠ [] ∧ v.flName ≠ [] ∧ Platform.lt (Platform.ofInt 1) v.rDistance = true

theorem reads_readValues : Reads (readValues (D := D)) Checked := by
  unfold readValues
  refine reads_inputString.bind fun rName hrName => ?_
  refine (reads_inputNumber _).bind fun rDistance hrDistance => ?_
  refine (reads_inputNumber _).bind fun cX _ => ?_
  refine (reads_inputNumber _).bind fun cY _ => ?_
  refine (reads_inputNumber _).bind fun flX _ => ?_
  refine (reads_inputNumber _).bind fun flY _ => ?_
  refine (reads_inputNumber _).bind fun flZ _ => ?_
  refine reads_inputString.bind fun flName hflName => ?_
  refine (reads_inputNumber _).bind fun slX _ => ?_
  refine (reads_inputNumber _).bind fun slY _ => ?_
  refine (reads_inputNumber _).bind fun slZ _ => ?_
  exact reads_pure ⟨hrName, hflName, hrDistance⟩

/-- The abscissa that passes the check for numbers from -140 on and is refused by the
constructor, which wants them above -140. -/
def Refused (v : RouteValues D) : Prop := Platform.le v.cX (Platform.ofInt (-140)) = true

theorem build_error (hlt : ∀ a b : D, Platform.lt a b = true → Platform.le b a = false)
    {v : RouteValues D} (hchecked : Checked v) {now : ℤ} {e : Throwable}
    (h : build v now = .error e) : Refused v := by
  obtain ⟨hrName, hflName, hrDistance⟩ := hchecked
  unfold Refused
  by_contra hcX
  rw [Bool.not_eq_true] at hcX
  have hcoordinates : Coordinates.new v.cX (Numbers.intValue v.cY) =
      .ok ⟨v.cX, Numbers.intValue v.cY, hcX⟩ := dif_pos hcX
  have hfrom : First.Location.new v.flX (Numbers.longValue v.flY) v.flZ v.flName =
      .ok ⟨v.flX, Numbers.longValue v.flY, v.flZ, v.flName, hflName⟩ := dif_pos hflName
  unfold build at h
  rw [hcoordinates, hfrom] at h
  simp only [Except.bind, Route.new, dif_pos (And.intro hrName (hlt _ _ hrDistance))] at h
  cases h

end CreatingNewInstance

/-! ### What gets through -/

/-- A text, or a connection that fails. -/
def Reply.Expected : Reply D → Prop
  | .ioException => True
  | .answer (.string _) => True
  | _ => False

/-- What a run has met that the code does not expect. -/
inductive Slip (conn : Connection D) (s : Client D) : Prop where
  | blank (line : JString) (hmem : line ∈ s.commands) (h : IsBlank line)
  | refused (v : RouteValues D) (hmem : v ∈ s.values) (h : CreatingNewInstance.Refused v)
  | oversized (request : Request D) (hmem : request ∈ s.requests)
      (h : BUFFER_SIZE < conn.size request)
  | unexpected (n : ℕ) (hlt : n < s.tick) (h : ¬ (conn.reply n).Expected)

/-- The commands that read a route. -/
def routeCommands : List CommandList := [.ADD, .UPDATE, .ADD_IF_MAX, .REMOVE_GREATER, .REMOVE_LOWER]

def AsksForRoute (line : JString) : Prop :=
  ∃ name, namePiece (splitSpaces line) = some name ∧
    CommandList.getCommandList name ∈ routeCommands

/-- The lines behind a command of the file do not hold the route that it asks for. -/
def CutShort (file : List JString) (s : Client D) : Prop :=
  ∃ line rest, line ∈ s.commands ∧ line :: rest <:+ file ∧ AsksForRoute line ∧
    (CreatingNewInstance.readValues (D := D)).run rest = none

/-- The exceptions for which there is no handler, neither here nor in the caller. -/
def unforeseen : List ScriptException :=
  [.IndexOutOfBoundsException, .IllegalArgumentException, .NullPointerException,
    .ClassCastException, .BufferOverflowException, .unfinished]

/-- How a run of the script ends without a text. -/
inductive Uncaught (conn : Connection D) (file : List JString) (e : ScriptException)
    (s : Client D) : Prop where
  | endOfFile (he : e = .NoSuchElementException) (h : CutShort file s)
  | slip (he : e ∈ unforeseen) (h : Slip conn s)

/-- How a command ends without a request: the handlers catch the first two. -/
inductive Thrown (conn : Connection D) (file rest : List JString) (e : ScriptException)
    (s : Client D) : Prop where
  | wrongCommand (message : String) (he : e = .WrongCommandException message)
      (h : s.lines <:+ rest)
  | connection (he : e = .IOException) (h : s.lines <:+ rest)
  | uncaught (h : Uncaught conn file e s)

/-- Where a command stands: its line is read, and the lines behind it are not. -/
def Stands (line : JString) (rest lines commands : List JString) : Prop :=
  lines = rest ∧ line ∈ commands

/-! ### Exchanges -/

section Commands

variable {conn : Connection D} {file rest : List JString}

section Exchanges

variable {I : List JString → List JString → Prop}
  (hI : ∀ lines commands, I lines commands → lines <:+ rest)
include hI

theorem ends_sendRequest (request : Request D) :
    Ends (fun s => I s.lines s.commands) (sendRequest conn request)
      (fun _ s => I s.lines s.commands) (Thrown conn file rest) := by
  unfold sendRequest
  refine (ends_modify (P := fun _ s => I s.lines s.commands ∧ request ∈ s.requests) ?_).bind
    fun _ => ?_
  · intro s hs
    exact ⟨hs, List.mem_append_right _ (List.mem_singleton_self request)⟩
  by_cases hsize : BUFFER_SIZE < conn.size request
  · rw [if_pos hsize]
    intro s hs
    exact .uncaught (.slip (by decide) (.oversized request hs.2 hsize))
  · rw [if_neg hsize]
    refine ends_get_bind fun s hs => ?_
    by_cases hfails : conn.writeFails s.tick
    · rw [if_pos hfails]
      rintro _ rfl
      exact .connection rfl (hI _ _ hs.1)
    · rw [if_neg hfails]
      rintro _ rfl
      exact hs.1

theorem ends_getAnswerText :
    Ends (fun s => I s.lines s.commands) (getAnswerText conn >>= nonNullText)
      (fun _ s => I s.lines s.commands) (Thrown conn file rest) := by
  unfold getAnswerText
  intro s hs
  have hslip : ∀ e ∈ unforeseen, ¬ (conn.reply s.tick).Expected →
      Thrown conn file rest e { s with tick := s.tick + 1 } :=
    fun e he h => .uncaught (.slip he (.unexpected s.tick (Nat.lt_succ_self _) h))
  simp only [exec_bind, exec_get, exec_modify]
  cases hreply : conn.reply s.tick with
  | ioException => exact .connection rfl (hI _ _ hs)
  | noAnswer => exact hslip _ (by decide) (by rw [hreply]; exact id)
  | closed => exact hslip _ (by decide) (by rw [hreply]; exact id)
  | notAnswer => exact hslip _ (by decide) (by rw [hreply]; exact id)
  | answer o =>
    cases o with
    | string text => exact hs
    | _ => exact hslip _ (by decide) (by rw [hreply]; exact id)

end Exchanges

/-! ### Commands -/

variable {line : JString}

theorem ends_createNewRouteInstance
    (hlt : ∀ a b : D, Platform.lt a b = true → Platform.le b a = false)
    (hroute : AsksForRoute line) (hfile : line :: rest <:+ file) :
    Ends (fun s => Stands line rest s.lines s.commands)
      (CreatingNewInstance.createNewRouteInstance conn)
      (fun _ s => s.lines <:+ rest) (Thrown conn file rest) := by
  unfold CreatingNewInstance.createNewRouteInstance
  refine ends_get_bind fun s hs => ?_
  obtain ⟨hlines, hcommand⟩ := hs
  cases hread : (CreatingNewInstance.readValues (D := D)).run s.lines with
  | none =>
    rintro _ rfl
    refine .uncaught (.endOfFile rfl ⟨line, rest, hcommand, hfile, hroute, ?_⟩)
    rw [← hlines, hread]
  | some read =>
    obtain ⟨v, lines⟩ := read
    obtain ⟨hsuffix, hchecked⟩ := CreatingNewInstance.reads_readValues s.lines v lines hread
    rw [hlines] at hsuffix
    intro t ht
    rw [ht]
    dsimp only
    rw [exec_bind, exec_modify]
    dsimp only
    cases hbuild : CreatingNewInstance.build v (conn.now s.tick) with
    | ok route => exact hsuffix
    | error e =>
      have hrefused := CreatingNewInstance.build_error hlt hchecked hbuild
      exact .uncaught (.slip (by decide) (.refused v
        (List.mem_append_right _ (List.mem_singleton_self v)) hrefused))

theorem Stands.suffix {lines commands : List JString} (h : Stands line rest lines commands) :
    lines <:+ rest := by
  rw [h.1]

theorem ends_wrongCommand {α : Type} {Q : α → Client D → Prop} (message : String) :
    Ends (fun s => Stands line rest s.lines s.commands)
      (throw (.WrongCommandException message) : ScriptAction D α) Q (Thrown conn file rest) :=
  ends_throw fun _ hs => .wrongCommand message rfl hs.suffix

namespace CommandWorker

theorem ends_routeRequest
    (hlt : ∀ a b : D, Platform.lt a b = true → Platform.le b a = false)
    (hroute : AsksForRoute line) (hfile : line :: rest <:+ file) (user : User)
    (command : CommandList) (arguments : List JString) :
    Ends (fun s => Stands line rest s.lines s.commands)
      (routeRequest conn user command arguments)
      (fun _ s => s.lines <:+ rest) (Thrown conn file rest) := by
  unfold routeRequest
  by_cases hword : arguments.head? = some (.ofString "Route")
  · rw [if_pos hword]
    refine (ends_createNewRouteInstance hlt hroute hfile).bind fun route => ?_
    exact ends_pure fun s hs => hs
  · rw [if_neg hword]
    exact ends_wrongCommand _

theorem ends_argumentsRequest (user : User) (command : CommandList) (check : JString → Bool)
    (message : String) (arguments : List JString) :
    Ends (fun s => Stands line rest s.lines s.commands)
      (argumentsRequest user command check message arguments)
      (fun _ s => s.lines <:+ rest) (Thrown (D := D) conn file rest) := by
  cases arguments with
  | nil => exact ends_wrongCommand _
  | cons first arguments =>
    unfold argumentsRequest
    dsimp only
    by_cases hcheck : check first = true
    · rw [if_pos hcheck]
      exact ends_pure fun s hs => hs.suffix
    · rw [if_neg hcheck]
      exact ends_wrongCommand _

theorem ends_updateRequest
    (hlt : ∀ a b : D, Platform.lt a b = true → Platform.le b a = false)
    (hroute : AsksForRoute line) (hfile : line :: rest <:+ file) (user : User)
    (arguments : List JString) :
    Ends (fun s => Stands line rest s.lines s.commands) (updateRequest conn user arguments)
      (fun _ s => s.lines <:+ rest) (Thrown conn file rest) := by
  have hsuffix : ∀ lines commands, Stands line rest lines commands → lines <:+ rest :=
    fun _ _ h => h.suffix
  cases arguments with
  | nil => exact ends_wrongCommand _
  | cons first arguments =>
    unfold updateRequest
    dsimp only
    cases Integer.parseUnsignedInt first with
    | none => exact ends_wrongCommand _
    | some id =>
      refine (ends_sendRequest hsuffix _).bind fun _ => ?_
      refine (ends_getAnswerText hsuffix).bind fun isIdAvaliable => ?_
      by_cases htrue : isIdAvaliable = .ofString "TRUE"
      · rw [if_pos htrue]
        refine (ends_createNewRouteInstance hlt hroute hfile).bind fun route => ?_
        exact ends_pure fun s hs => hs
      · rw [if_neg htrue]
        exact ends_wrongCommand _

/-! ### Names of commands -/

theorem dropEmptyFirst_of_name {pieces : List JString} {name : JString}
    (h : namePiece pieces = some name) :
    ∃ arguments, (dropEmptyFirst pieces : ScriptAction D _) = pure (name, arguments) := by
  cases pieces with
  | nil => cases h
  | cons first rest =>
    unfold namePiece at h
    unfold dropEmptyFirst
    dsimp only at h ⊢
    split_ifs at h ⊢ with hfirst
    · cases rest with
      | nil => cases h
      | cons second rest =>
        cases h
        exact ⟨rest, rfl⟩
    · cases h
      exact ⟨rest, rfl⟩

theorem dropEmptyFirst_of_no_name {pieces : List JString} (h : namePiece pieces = none) :
    (dropEmptyFirst pieces : ScriptAction D _) = throw .IndexOutOfBoundsException := by
  cases pieces with
  | nil => rfl
  | cons first rest =>
    unfold namePiece at h
    unfold dropEmptyFirst
    dsimp only at h ⊢
    split_ifs at h ⊢ with hfirst
    cases rest with
    | nil => rfl
    | cons second rest => cases h

variable {name : JString} (hname : namePiece (splitSpaces line) = some name)
  (hscript : name ≠ .ofString "execute_script") (hfile : line :: rest <:+ file)
  (hlt : ∀ a b : D, Platform.lt a b = true → Platform.le b a = false)
include hname hscript hfile hlt

/-- The other file of a script in a script is not reached. -/
theorem ends_createRequest (nested : JString → ScriptAction D Unit) (readable : JString → Bool)
    (user : User) :
    Ends (fun s => Stands line rest s.lines s.commands)
      (createRequest nested readable conn line user)
      (fun _ s => s.lines <:+ rest) (Thrown conn file rest) := by
  unfold createRequest
  by_cases hempty : line = [] ∨ (splitSpaces line).length = 0
  · simp only [if_pos hempty]
    exact ends_wrongCommand _
  simp only [if_neg hempty]
  obtain ⟨arguments, hdrop⟩ := dropEmptyFirst_of_name (D := D) hname
  rw [hdrop, pure_bind]
  dsimp only
  have hroute : CommandList.getCommandList name ∈ routeCommands → AsksForRoute line :=
    fun h => ⟨name, hname, h⟩
  cases hcommand : CommandList.getCommandList name with
  | HELP | INFO | SHOW | CLEAR => exact ends_pure fun s hs => hs.suffix
  | ADD | ADD_IF_MAX | REMOVE_GREATER | REMOVE_LOWER =>
    exact ends_routeRequest hlt (hroute (by rw [hcommand]; decide)) hfile user _ arguments
  | UPDATE => exact ends_updateRequest hlt (hroute (by rw [hcommand]; decide)) hfile user arguments
  | REMOVE_BY_ID | REMOVE_ANY_BY_DISTANCE | FILTER_CONTAINS_NAME | FILTER_STARTS_WITH_NAME =>
    exact ends_argumentsRequest user _ _ _ arguments
  | EXECUTE_SCRIPT => exact absurd (CommandList.getCommandList_execute_script hcommand) hscript
  | _ => exact ends_wrongCommand _

theorem ends_executeCommand (nested : JString → ScriptAction D Unit) (readable : JString → Bool)
    (resources : Resources) (user : User) :
    Ends (fun s => Stands line rest s.lines s.commands)
      (executeCommand nested readable conn resources user line)
      (fun _ s => s.lines <:+ rest) (Thrown conn file rest) := by
  have hsuffix : ∀ lines commands : List JString, lines <:+ rest → lines <:+ rest :=
    fun _ _ h => h
  unfold executeCommand
  refine (ends_createRequest hname hscript hfile hlt nested readable user).bind fun request => ?_
  by_cases hcommand : request.command = .NO_COMMAND
  · rw [if_pos hcommand]
    exact ends_pure fun s hs => hs
  · rw [if_neg hcommand]
    refine (ends_sendRequest (I := fun lines _ => lines <:+ rest) hsuffix request).bind fun _ => ?_
    refine (ends_getAnswerText (I := fun lines _ => lines <:+ rest) hsuffix).bind fun answer => ?_
    exact ends_pure fun s hs => hs

end CommandWorker

/-- A handler goes on with the lines that are left. -/
theorem Thrown.suffix {e : ScriptException} {s : Client D} (h : Thrown conn file rest e s)
    (he : e ∉ .NoSuchElementException :: unforeseen) : s.lines <:+ rest := by
  cases h with
  | wrongCommand message _ h => exact h
  | connection _ h => exact h
  | uncaught h =>
    cases h with
    | endOfFile hend _ => exact absurd (List.mem_cons.mpr (.inl hend)) he
    | slip hslip _ => exact absurd (List.mem_cons_of_mem _ hslip) he

theorem Thrown.toUncaught {e : ScriptException} {s : Client D} (h : Thrown conn file rest e s)
    (he : e ∈ .NoSuchElementException :: unforeseen) : Uncaught conn file e s := by
  cases h with
  | wrongCommand message heq _ =>
    subst heq
    simp [unforeseen] at he
  | connection heq _ =>
    subst heq
    simp [unforeseen] at he
  | uncaught h => exact h

end Commands

/-! ### The loop -/

namespace CommandWorker

section Loop

variable {conn : Connection D} {file : List JString}
  (hlt : ∀ a b : D, Platform.lt a b = true → Platform.le b a = false)
  (nested : JString → ScriptAction D Unit) (readable : JString → Bool)
  (resources : Resources) (user : User)
include hlt

/-- A turn takes a line, at least. -/
theorem ends_turn (n : ℕ) :
    Ends (fun s => s.lines <:+ file ∧ s.lines.length < n + 1)
      (turn nested readable conn resources user)
      (fun text s => text ≠ none → s.lines <:+ file ∧ s.lines.length < n)
      (Uncaught conn file) := by
  unfold turn
  refine ends_get_bind fun s hs => ?_
  obtain ⟨hfile, hlength⟩ := hs
  cases hlines : s.lines with
  | nil => exact ends_pure fun _ _ h => absurd rfl h
  | cons line rest =>
    rw [hlines] at hfile hlength
    have hleft : ∀ lines : List JString, lines <:+ rest → lines <:+ file ∧ lines.length < n := by
      intro lines hsuffix
      have hrest := (List.suffix_cons line rest).trans hfile
      have hle := hsuffix.length_le
      rw [List.length_cons] at hlength
      exact ⟨hsuffix.trans hrest, by omega⟩
    refine (ends_modify (P := fun _ s => Stands line rest s.lines s.commands) ?_).bind fun _ => ?_
    · rintro _ rfl
      exact ⟨rfl, List.mem_append_right _ (List.mem_singleton_self line)⟩
    cases hname : namePiece (splitSpaces line) with
    | none =>
      rw [dropEmptyFirst_of_no_name hname]
      have hblank : IsBlank line := by
        by_contra hblank
        obtain ⟨name, hsome⟩ := namePiece_of_not_blank hblank
        rw [hname] at hsome
        cases hsome
      exact fun s hs => .slip (by decide) (.blank line hs.2 hblank)
    | some name =>
      obtain ⟨arguments, hdrop⟩ := dropEmptyFirst_of_name (D := D) hname
      rw [hdrop, pure_bind]
      dsimp only
      by_cases hscript : name = .ofString "execute_script"
      · rw [if_pos hscript]
        exact ends_pure fun s hs _ => hleft _ hs.suffix
      rw [if_neg hscript]
      refine ((ends_executeCommand hname hscript hfile hlt nested readable resources
        user).tryCatch fun e => ?_).bind fun text => ?_
      · cases e with
        | WrongCommandException | IOException | FileNotFoundException =>
          exact ends_pure fun s hs => hs.suffix (by simp [unforeseen])
        | _ => exact ends_throw fun s hs => hs.toUncaught (by decide)
      · exact ends_pure fun s hs _ => hleft _ hs

/-- By induction on the number of turns, which the lines that are left bound. -/
theorem ends_loop (n : ℕ) (answer : JString) :
    Ends (fun s => s.lines <:+ file ∧ s.lines.length < n)
      (loop nested readable conn resources user n answer) (fun _ _ => True)
      (Uncaught conn file) := by
  induction n generalizing answer with
  | zero => exact fun s hs => absurd hs.2 (Nat.not_lt_zero _)
  | succ n ih =>
    unfold loop
    refine (ends_turn hlt nested readable resources user n).bind fun text => ?_
    cases text with
    | none => exact ends_pure fun _ _ => trivial
    | some text =>
      have hrest : ∀ s : Client D, (some text ≠ none → s.lines <:+ file ∧ s.lines.length < n) →
          s.lines <:+ file ∧ s.lines.length < n := fun s h => h (Option.some_ne_none text)
      exact (ih (answer ++ text)).weaken hrest (fun _ _ h => h) fun _ _ h => h

end Loop

/-- The client before a run. -/
def start : Client D where
  lines := []
  tick := 0
  commands := []
  values := []
  requests := []

/-- Without a slip the run of a script gives a text, or ends with the file within a
route; a file that cannot be opened is not run. -/
theorem executeScript_survives
    (hlt : ∀ a b : D, Platform.lt a b = true → Platform.le b a = false)
    (nested : JString → ScriptAction D Unit) (files : JString → Option (List JString))
    (conn : Connection D) (resources : Resources) (destination : JString) (user : User)
    (hslip : ¬ Slip conn
      (exec (executeScript nested files conn resources destination user) start).2) :
    let (result, s) := exec (executeScript nested files conn resources destination user) start
    (∃ text, result = .ok text) ∨
      (result = .error .NoSuchElementException ∧
        ∃ file, files destination = some file ∧ CutShort file s) ∨
      result = .error .FileNotFoundException ∧ files destination = none := by
  unfold executeScript at hslip ⊢
  cases hfiles : files destination with
  | none => exact .inr (.inr ⟨rfl, rfl⟩)
  | some file =>
    rw [hfiles] at hslip
    dsimp only at hslip ⊢
    have hopen : Ends (· = (start : Client D)) (modify fun s => { s with lines := file })
        (fun _ s => s.lines <:+ file ∧ s.lines.length < file.length + 1) (Uncaught conn file) := by
      apply ends_modify
      rintro _ rfl
      exact ⟨List.suffix_rfl, Nat.lt_succ_self file.length⟩
    have hends := hopen.bind (fun _ => ends_loop hlt nested (fun path => (files path).isSome)
      resources user (file.length + 1) []) start rfl
    rcases hexec : exec _ start with ⟨result, s⟩
    rw [hexec] at hslip hends
    cases result with
    | ok text => exact .inl ⟨text, rfl⟩
    | error e =>
      cases hends with
      | endOfFile he hcut => exact .inr (.inl ⟨by rw [he], file, rfl, hcut⟩)
      | slip _ h => exact absurd h hslip

/-- A connection without failures, for concrete runs. -/
def answering : Connection ProgLab6.Whole where
  writeFails _ := false
  reply _ := .answer (.string (.ofString "done"))
  now _ := 0
  size _ := 0

/-- A script with an unknown command, as the last one. -/
theorem executeScript_survives_unknown :
    ∃ text, (exec (executeScript (fun _ => pure ())
      (fun _ => some [.ofString "info", .ofString "foo"]) answering (fun _ => none) [] ⟨[], []⟩)
      start).1 = .ok text := by
  have hslip : ¬ Slip answering (exec (executeScript (fun _ => pure ())
      (fun _ => some [.ofString "info", .ofString "foo"]) answering (fun _ => none) [] ⟨[], []⟩)
      start).2 := by
    rintro (⟨line, hmem, h⟩ | ⟨v, hmem, -⟩ | ⟨request, -, h⟩ | ⟨n, -, h⟩)
    · have hlines : ∀ line ∈ [JString.ofString "info", JString.ofString "foo"],
          ∃ c ∈ line, isSpace c = false := by decide
      obtain ⟨c, hc, hspace⟩ := hlines line hmem
      rw [h c hc] at hspace
      cases hspace
    · cases hmem
    · exact Nat.not_lt_zero _ h
    · exact h trivial
  have hlt : ∀ a b : ProgLab6.Whole, Platform.lt a b = true → Platform.le b a = false := by
    intro a b h
    have hval : a.val < b.val := of_decide_eq_true h
    exact decide_eq_false (not_le.mpr hval)
  rcases executeScript_survives hlt _ _ _ _ _ _ hslip with htext | ⟨hend, -⟩ | ⟨-, hnone⟩
  · exact htext
  · cases hend
  · cases hnone

/-- The file ends within the route of its command. -/
theorem executeScript_ends_in_route :
    ¬ ∀ (nested : JString → ScriptAction ProgLab6.Whole Unit)
      (files : JString → Option (List JString)) (conn : Connection ProgLab6.Whole)
      (resources : Resources) (destination : JString) (user : User),
      (∃ text, (exec (executeScript nested files conn resources destination user) start).1 =
        .ok text) ∨
      ((exec (executeScript nested files conn resources destination user) start).1 =
        .error .FileNotFoundException ∧ files destination = none) := by
  intro h
  rcases h (fun _ => pure ()) (fun _ => some [.ofString "add Route"]) answering (fun _ => none) []
    ⟨[], []⟩ with ⟨text, htext⟩ | ⟨-, hnone⟩
  · cases htext
  · cases hnone

end CommandWorker

end Itmo.ProgLab8
