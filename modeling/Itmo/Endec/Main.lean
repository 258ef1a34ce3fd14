import Itmo.Endec.CardanLimits
import Itmo.Endec.KeySchedule
import Itmo.Endec.KeyStream
import Itmo.Lib.Utf

/-! The program of `main.rs`, which encodes and decodes files. The check that the output file can
be written makes it empty, and it is made while the arguments are parsed, in their order, so before
the input file is read. The stream command writes each byte before it reads the next one. -/

namespace Itmo.Endec

open Lib

/-! ### Texts -/

def toUtf8 (text : List Char) : List Byte := (Utf.encode text).map (BitVec.ofNat 8)

/-- The text of bytes that are UTF-8. -/
def fromUtf8 (bytes : List Byte) : Option (List Char) :=
  let text := Utf.decode (bytes.map BitVec.toNat)
  if toUtf8 text = bytes then some text else none

theorem lt_of_mem_encodeChar {c : Char} {b : ℕ} (h : b ∈ Utf.encodeChar c) : b < 256 := by
  have hc := Utf.toNat_cases c
  rw [Utf.encodeChar] at h
  split_ifs at h
  all_goals
    simp only [List.mem_cons, List.not_mem_nil, or_false] at h
    omega

theorem fromUtf8_toUtf8 (text : List Char) : fromUtf8 (toUtf8 text) = some text := by
  have hbytes : (toUtf8 text).map BitVec.toNat = Utf.encode text := by
    rw [toUtf8, List.map_map]
    refine (List.map_congr_left fun b hb => ?_).trans (List.map_id _)
    obtain ⟨c, -, hc⟩ := List.mem_flatMap.mp hb
    exact Nat.mod_eq_of_lt (lt_of_mem_encodeChar hc)
  rw [fromUtf8, hbytes, Utf.decode_encode, if_pos rfl]

/-! ### The disk -/

/-- The files that names stand for, and what the system lets the program do with them. -/
structure Disk (File : Type) where
  isDir : File → Bool
  createError : File → Option String
  mayRead : File → Bool
  content : File → Option (List Byte)
  isDir_content : ∀ f, isDir f → content f = none
  isDir_createError : ∀ f, isDir f → createError f ≠ none

namespace Disk

variable {File : Type} [DecidableEq File]

def put (d : Disk File) (f : File) (bytes : List Byte) (h : d.createError f = none) : Disk File :=
  { d with
    content := Function.update d.content f (some bytes)
    isDir_content := fun f' hdir => by
      have hne : f' ≠ f := fun heq => d.isDir_createError f' hdir (heq ▸ h)
      rw [Function.update_of_ne hne]
      exact d.isDir_content f' hdir }

/-- A file of the bytes is made, in the place of the one that is there. -/
def create (d : Disk File) (f : File) (bytes : List Byte) : Except String (Disk File) :=
  if h : d.createError f = none then .ok (d.put f bytes h)
  else .error ((d.createError f).getD "")

@[simp] theorem put_content_self (d : Disk File) (f : File) (bytes : List Byte)
    (h : d.createError f = none) : (d.put f bytes h).content f = some bytes :=
  Function.update_self _ _ _

theorem put_content_of_ne (d : Disk File) {f f' : File} (bytes : List Byte)
    (h : d.createError f = none) (hne : f' ≠ f) : (d.put f bytes h).content f' = d.content f' :=
  Function.update_of_ne hne _ _

@[simp] theorem put_mayRead (d : Disk File) (f : File) (bytes : List Byte)
    (h : d.createError f = none) : (d.put f bytes h).mayRead = d.mayRead := rfl

theorem put_put (d : Disk File) (f : File) (bytes bytes' : List Byte) (h : d.createError f = none) :
    (d.put f bytes h).put f bytes' h = d.put f bytes' h := by
  simp only [put, Function.update_idem]

theorem create_of_none (d : Disk File) {f : File} (bytes : List Byte) (h : d.createError f = none) :
    d.create f bytes = .ok (d.put f bytes h) := dif_pos h

theorem create_put (d : Disk File) {f : File} (bytes bytes' : List Byte)
    (h : d.createError f = none) : (d.put f bytes h).create f bytes' = .ok (d.put f bytes' h) := by
  rw [(d.put f bytes h).create_of_none bytes' h, put_put]

def read (d : Disk File) (f : File) : Option (List Byte) :=
  if d.mayRead f then d.content f else none

/-- A byte is written at the end of a file that was made. -/
def append (d : Disk File) (f : File) (byte : Byte) : Disk File :=
  if h : d.createError f = none then d.put f ((d.content f).getD [] ++ [byte]) h else d

theorem append_put (d : Disk File) {f : File} (bytes : List Byte) (byte : Byte)
    (h : d.createError f = none) :
    (d.put f bytes h).append f byte = d.put f (bytes ++ [byte]) h := by
  have hput : (d.put f bytes h).createError f = none := h
  rw [append, dif_pos hput, put_put, put_content_self, Option.getD_some]

end Disk

/-! ### The program -/

inductive Method where
  | Cardan

inductive Commands where
  | Classic (file key : String) (method : Method) (decode : Bool)
  | Block (inputFile outputFile : String) (outputFirst : Bool) (key : String)
      (algorithm : Algorithm) (mode : Mode) (decode : Bool)
  | Stream (outputFile : String)

/-- An argument is refused, `main` returns an error, it panics or runs on for ever, or it returns
with what it has printed. -/
inductive Outcome where
  | refused (message : String)
  | failed
  | noReturn
  | done (printed : List Char)

/-- What the program gets from outside. After the bytes of the input it ends, or cannot be read any
more, or else nothing comes any more. -/
structure World (File : Type) where
  resolve : String → File
  stableHash : StableHash
  randomSymbol : ℕ → Char
  stdin : List Byte
  stdinEnds : Bool

def Method.code (stableHash : StableHash) (randomSymbol : ℕ → Char) (method : Method)
    (decode : Bool) (input : List Char) (key : String) : Option (List Char) :=
  match method with
  | .Cardan =>
    if decode then Cardan.decode stableHash randomSymbol input (toUtf8 key.toList)
    else Cardan.encode stableHash randomSymbol input (toUtf8 key.toList)

def Mode.code (stableHash : StableHash) (mode : Mode) (decode : Bool) (input : List Byte)
    (key : String) (algorithm : Algorithm) : Option (List Byte) :=
  if decode then mode.decode stableHash input (toUtf8 key.toList) algorithm
  else mode.encode stableHash input (toUtf8 key.toList) algorithm

section Program

variable {File : Type} [DecidableEq File] (world : World File) (breaksOff : Option ℕ)

def fileExists (s : String) (d : Disk File) : Except String (Disk File) :=
  let path := world.resolve s
  if d.content path = none ∧ d.isDir path = false then .error "Input file does not exist."
  else if d.isDir path then .error "Input path points to directory, not file."
  else .ok d

def canWrite (s : String) (d : Disk File) : Except String (Disk File) :=
  match d.create (world.resolve s) [] with
  | .ok d => .ok d
  | .error err => .error s!"Error with {s}: {err}"

/-- The parsers of the values, in the order of the arguments. -/
def Commands.parsers : Commands → List (Disk File → Except String (Disk File))
  | .Classic file .. => [fileExists world file]
  | .Block inputFile outputFile outputFirst .. =>
    if outputFirst then [canWrite world outputFile, fileExists world inputFile]
    else [fileExists world inputFile, canWrite world outputFile]
  | .Stream outputFile => [canWrite world outputFile]

/-- The first value that is refused ends the parsing. -/
def parse : List (Disk File → Except String (Disk File)) → Disk File → Option String × Disk File
  | [], d => (none, d)
  | parser :: parsers, d =>
    match parser d with
    | .ok d => parse parsers d
    | .error message => (some message, d)

/-- The bytes that are written, of which `breaksOff` is the number if writing breaks off. -/
def written (bytes : List Byte) : List Byte := bytes.take (breaksOff.getD bytes.length)

/-- `fs::write`, the last thing that `main` does. -/
def write (s : String) (bytes : List Byte) (d : Disk File) : Outcome × Disk File :=
  match d.create (world.resolve s) (written breaksOff bytes) with
  | .ok d => (if written breaksOff bytes = bytes then .done [] else .failed, d)
  | .error _ => (.failed, d)

namespace Stream

/-- The loop of `stream`. A byte that is not written panics. -/
def loop (f : File) : Var → List Byte → Option ℕ → Disk File → Outcome × Disk File
  | _, [], _, d => (if world.stdinEnds then .done [] else .noReturn, d)
  | _, _ :: _, some 0, d => (.noReturn, d)
  | var, sym :: stdin, some (n + 1), d =>
    loop f var.nextGamma.1 stdin (some n) (d.append f (sym ^^^ var.nextGamma.2))
  | var, sym :: stdin, none, d =>
    loop f var.nextGamma.1 stdin none (d.append f (sym ^^^ var.nextGamma.2))

def stream (outputFile : String) (d : Disk File) : Outcome × Disk File :=
  match d.create (world.resolve outputFile) [] with
  | .ok d => loop world (world.resolve outputFile) Var.new world.stdin breaksOff d
  | .error _ => (.failed, d)

end Stream

def Commands.execute : Commands → Disk File → Outcome × Disk File
  | .Classic file key method decode, d =>
    match (d.read (world.resolve file)).bind fromUtf8 with
    | none => (.failed, d)
    | some input =>
      match method.code world.stableHash world.randomSymbol decode input key with
      | none => (.noReturn, d)
      | some code => (.done (code ++ ['\n']), d)
  | .Block inputFile outputFile _ key algorithm mode decode, d =>
    match d.read (world.resolve inputFile) with
    | none => (.failed, d)
    | some input =>
      match mode.code world.stableHash decode input key algorithm with
      | none => (.noReturn, d)
      | some code => write world breaksOff outputFile code d
  | .Stream outputFile, d => Stream.stream world breaksOff outputFile d

/-- `main`, where writing into the output file breaks off after some bytes or goes through. -/
def mainUntil (command : Commands) (d : Disk File) : Outcome × Disk File :=
  match parse (command.parsers world) d with
  | (some message, d) => (.refused message, d)
  | (none, d) => command.execute world breaksOff d

/-- `main`, where all that is written goes through. -/
def main (command : Commands) (d : Disk File) : Outcome × Disk File :=
  mainUntil world none command d

end Program

/-! ### What changes on the disk -/

section Frame

variable {File : Type} [DecidableEq File] {world : World File} {d d' : Disk File}

def Commands.outputFile : Commands → Option String
  | .Classic .. => none
  | .Block _ outputFile .. => some outputFile
  | .Stream outputFile => some outputFile

/-- At most the output file has been made empty. -/
def Emptied (world : World File) (outputFile : Option String) (d d' : Disk File) : Prop :=
  d' = d ∨ ∃ s ∈ outputFile, ∃ h, d' = d.put (world.resolve s) [] h

omit [DecidableEq File] in
theorem fileExists_ok {s : String} (h : fileExists world s d = .ok d') : d' = d := by
  rw [fileExists] at h
  split_ifs at h
  cases h
  rfl

theorem canWrite_ok {s : String} (h : canWrite world s d = .ok d') :
    ∃ hnone, d' = d.put (world.resolve s) [] hnone := by
  by_cases hnone : d.createError (world.resolve s) = none
  · rw [canWrite, d.create_of_none [] hnone] at h
    cases h
    exact ⟨hnone, rfl⟩
  · rw [canWrite, Disk.create, dif_neg hnone] at h
    cases h

theorem Emptied.parser {command : Commands} {d'' : Disk File}
    {parser : Disk File → Except String (Disk File)} (hparser : parser ∈ command.parsers world)
    (h : Emptied world command.outputFile d d') (hok : parser d' = .ok d'') :
    Emptied world command.outputFile d d'' := by
  have hcases : (∃ s, parser = fileExists world s) ∨
      ∃ s ∈ command.outputFile, parser = canWrite world s := by
    cases command with
    | Classic file key method decode => exact .inl ⟨file, List.mem_singleton.mp hparser⟩
    | Block inputFile outputFile outputFirst key algorithm mode decode =>
      have hmem : parser = canWrite world outputFile ∨ parser = fileExists world inputFile := by
        rw [Commands.parsers] at hparser
        split_ifs at hparser
        · simpa using hparser
        · simpa [or_comm] using hparser
      exact hmem.symm.imp (fun heq => ⟨_, heq⟩) fun heq => ⟨_, rfl, heq⟩
    | Stream outputFile => exact .inr ⟨outputFile, rfl, List.mem_singleton.mp hparser⟩
  obtain ⟨s, rfl⟩ | ⟨s, hs, rfl⟩ := hcases
  · rw [fileExists_ok hok]
    exact h
  · obtain ⟨hnone, rfl⟩ := canWrite_ok hok
    rcases h with rfl | ⟨s', hs', hnone', rfl⟩
    · exact .inr ⟨s, hs, hnone, rfl⟩
    · obtain rfl : s' = s := Option.mem_unique hs' hs
      exact .inr ⟨s', hs, hnone', Disk.put_put _ _ _ _ _⟩

theorem parse_emptied {command : Commands} {parsers : List (Disk File → Except String (Disk File))}
    (hparsers : ∀ parser ∈ parsers, parser ∈ command.parsers world)
    (h : Emptied world command.outputFile d d') :
    Emptied world command.outputFile d (parse parsers d').2 := by
  induction parsers generalizing d' with
  | nil => exact h
  | cons parser parsers ih =>
    rw [parse]
    split
    · next d'' hok =>
      exact ih (fun p hp => hparsers p (List.mem_cons_of_mem _ hp))
        (h.parser (hparsers parser List.mem_cons_self) hok)
    · exact h

/-- What the command writes into its output file, when its arguments have been parsed. -/
def Commands.code (world : World File) (d : Disk File) : Commands → Option (List Byte)
  | .Classic .. => none
  | .Block inputFile _ _ key algorithm mode decode =>
    (d.read (world.resolve inputFile)).bind fun input =>
      mode.code world.stableHash decode input key algorithm
  | .Stream _ => some (Stream.Var.new.stream world.stdin)

/-- The output file alone changes. It is left as it was, empty, or with a beginning of what the
command writes, and with all of it if `main` returns. -/
structure Contained (world : World File) (command : Commands) (d : Disk File) (outcome : Outcome)
    (d' : Disk File) : Prop where
  frame : ∀ f, (∀ s ∈ command.outputFile, world.resolve s ≠ f) → d'.content f = d.content f
  output : ∀ s ∈ command.outputFile, d'.content (world.resolve s) = d.content (world.resolve s) ∨
    d'.content (world.resolve s) = some [] ∨
    ∃ code ∈ command.code world (parse (command.parsers world) d).2,
      ∃ bytes, d'.content (world.resolve s) = some bytes ∧ bytes <+: code
  finished : ∀ s ∈ command.outputFile, ∀ printed, outcome = .done printed →
    ∃ code ∈ command.code world (parse (command.parsers world) d).2,
      d'.content (world.resolve s) = some code

variable {command : Commands} {breaksOff : Option ℕ}

theorem Emptied.contained (h : Emptied world command.outputFile d d') {outcome : Outcome}
    (houtcome : ∀ printed, outcome = .done printed → command.outputFile = none) :
    Contained world command d outcome d' where
  frame f hf := by
    rcases h with rfl | ⟨s, hs, hnone, rfl⟩
    · rfl
    · exact Disk.put_content_of_ne _ _ _ (hf s hs).symm
  output s hs := by
    rcases h with rfl | ⟨s', hs', hnone, rfl⟩
    · exact .inl rfl
    · obtain rfl := Option.mem_unique hs hs'
      exact .inr (.inl (Disk.put_content_self _ _ _ _))
  finished s hs printed hdone := by
    rw [houtcome printed hdone] at hs
    cases hs

/-- What is written when the output file has been made empty. -/
theorem Emptied.put {s : String} {code bytes : List Byte} {outcome : Outcome}
    (h : Emptied world command.outputFile d d') (hs : command.outputFile = some s)
    (hcode : command.code world (parse (command.parsers world) d).2 = some code)
    (hbytes : bytes <+: code) (hdone : ∀ printed, outcome = .done printed → bytes = code)
    (hnone : d'.createError (world.resolve s) = none) :
    Contained world command d outcome (d'.put (world.resolve s) bytes hnone) where
  frame f hf := by
    have hcontained : Contained world command d .failed d' := h.contained fun _ h => by cases h
    rw [Disk.put_content_of_ne _ _ _ (hf s hs).symm, hcontained.frame f hf]
  output s' hs' := by
    obtain rfl := Option.mem_unique hs hs'
    exact .inr (.inr ⟨code, hcode, bytes, Disk.put_content_self _ _ _ _, hbytes⟩)
  finished s' hs' printed houtcome := by
    obtain rfl := Option.mem_unique hs hs'
    exact ⟨code, hcode, by rw [Disk.put_content_self, hdone printed houtcome]⟩

theorem Emptied.write {s : String} {code : List Byte}
    (h : Emptied world command.outputFile d d') (hs : command.outputFile = some s)
    (hcode : command.code world (parse (command.parsers world) d).2 = some code) :
    Contained world command d (write world breaksOff s code d').1
      (write world breaksOff s code d').2 := by
  rw [Endec.write]
  by_cases hnone : d'.createError (world.resolve s) = none
  · rw [d'.create_of_none _ hnone]
    refine h.put hs hcode (List.take_prefix _ _) (fun printed hdone => ?_) hnone
    dsimp only at hdone
    split_ifs at hdone with hall
    exact hall
  · rw [Disk.create, dif_neg hnone]
    exact h.contained fun _ h => by cases h

/-- The loop appends what is encoded of the input until a byte is not written, and returns if it has
come to the end of the input. -/
theorem Stream.loop_spec (world : World File) {f : File} (hnone : d.createError f = none)
    (bytes : List Byte) (var : Var) (stdin : List Byte) (breaksOff : Option ℕ) :
    ∃ more, more <+: var.stream stdin ∧
      (loop world f var stdin breaksOff (d.put f bytes hnone)).2 = d.put f (bytes ++ more) hnone ∧
      ∀ printed, (loop world f var stdin breaksOff (d.put f bytes hnone)).1 = .done printed →
        more = var.stream stdin := by
  induction stdin generalizing bytes var breaksOff with
  | nil => exact ⟨[], List.prefix_rfl, by rw [loop, List.append_nil], fun _ _ => rfl⟩
  | cons sym stdin ih =>
    have hnext : ∀ breaksOff : Option ℕ, ∃ more, more <+: var.stream (sym :: stdin) ∧
        (loop world f var.nextGamma.1 stdin breaksOff
          ((d.put f bytes hnone).append f (sym ^^^ var.nextGamma.2))).2 =
            d.put f (bytes ++ more) hnone ∧
        ∀ printed, (loop world f var.nextGamma.1 stdin breaksOff
          ((d.put f bytes hnone).append f (sym ^^^ var.nextGamma.2))).1 = .done printed →
            more = var.stream (sym :: stdin) := by
      intro breaksOff
      rw [Disk.append_put]
      obtain ⟨more, hprefix, hdisk, hdone⟩ :=
        ih (bytes ++ [sym ^^^ var.nextGamma.2]) var.nextGamma.1 breaksOff
      refine ⟨(sym ^^^ var.nextGamma.2) :: more, ?_, ?_, fun printed h => ?_⟩
      · rw [Var.stream]
        exact List.cons_prefix_cons.mpr ⟨rfl, hprefix⟩
      · rw [hdisk]
        simp
      · rw [Var.stream, hdone printed h]
    cases breaksOff with
    | none => exact hnext none
    | some n =>
      cases n with
      | zero => exact ⟨[], List.nil_prefix, by rw [loop, List.append_nil], fun _ h => by cases h⟩
      | succ n => exact hnext (some n)

theorem Emptied.stream {s : String} (h : Emptied world command.outputFile d d')
    (hs : command.outputFile = some s) (hcode : command.code world
      (parse (command.parsers world) d).2 = some (Stream.Var.new.stream world.stdin)) :
    Contained world command d (Stream.stream world breaksOff s d').1
      (Stream.stream world breaksOff s d').2 := by
  rw [Stream.stream]
  by_cases hnone : d'.createError (world.resolve s) = none
  · rw [d'.create_of_none _ hnone]
    obtain ⟨more, hprefix, hdisk, hdone⟩ :=
      Stream.loop_spec world hnone [] Stream.Var.new world.stdin breaksOff
    dsimp only
    rw [hdisk, List.nil_append]
    exact h.put hs hcode hprefix hdone hnone
  · rw [Disk.create, dif_neg hnone]
    exact h.contained fun _ h => by cases h

/-- Wherever writing breaks off. -/
theorem main_contained (world : World File) (breaksOff : Option ℕ) (command : Commands)
    (d : Disk File) : Contained world command d (mainUntil world breaksOff command d).1
      (mainUntil world breaksOff command d).2 := by
  have hparse : Emptied world command.outputFile d (parse (command.parsers world) d).2 :=
    parse_emptied (fun _ h => h) (.inl rfl)
  rw [mainUntil]
  split
  · next heq =>
    rw [heq] at hparse
    exact hparse.contained fun _ h => by cases h
  · next d' heq =>
    have hd : (parse (command.parsers world) d).2 = d' := by rw [heq]
    rw [hd] at hparse
    cases command with
    | Classic file key method decode =>
      rw [Commands.execute]
      split
      · exact hparse.contained fun _ _ => rfl
      · split <;> exact hparse.contained fun _ _ => rfl
    | Block inputFile outputFile outputFirst key algorithm mode decode =>
      rw [Commands.execute]
      split
      · exact hparse.contained fun _ h => by cases h
      · next input hread =>
        split
        · exact hparse.contained fun _ h => by cases h
        · next code hmode =>
          refine hparse.write rfl ?_
          rw [hd, Commands.code, hread]
          exact hmode
    | Stream outputFile => exact hparse.stream rfl rfl

end Frame

/-! ### The block command -/

section Block

variable {File : Type} [DecidableEq File] {world : World File} {d : Disk File}
  {inputFile outputFile key : String} {m : List Byte}

/-- The input file can be read and the output file can be written. -/
structure Ready (world : World File) (d : Disk File) (inputFile outputFile : String)
    (m : List Byte) : Prop where
  content : d.content (world.resolve inputFile) = some m
  mayRead : d.mayRead (world.resolve inputFile) = true
  createError : d.createError (world.resolve outputFile) = none

omit [DecidableEq File] in
theorem fileExists_of_content {s : String} {bytes : List Byte}
    (h : d.content (world.resolve s) = some bytes) : fileExists world s d = .ok d := by
  have hdir : d.isDir (world.resolve s) = false := by
    by_contra hdir
    have hnone := d.isDir_content _ (Bool.eq_true_of_not_eq_false hdir)
    rw [h] at hnone
    cases hnone
  rw [fileExists, if_neg (fun hboth => by rw [h] at hboth; cases hboth.1), hdir]
  rfl

theorem canWrite_of_none {s : String} (h : d.createError (world.resolve s) = none) :
    canWrite world s d = .ok (d.put (world.resolve s) [] h) := by
  rw [canWrite, d.create_of_none [] h]

theorem Ready.content_put (h : Ready world d inputFile outputFile m) :
    (d.put (world.resolve outputFile) [] h.createError).content (world.resolve inputFile) =
      some (if world.resolve inputFile = world.resolve outputFile then [] else m) := by
  split_ifs with heq
  · rw [heq]
    exact Disk.put_content_self _ _ _ _
  · rw [Disk.put_content_of_ne _ _ _ heq, h.content]

/-- Both files pass, in either order, and the output file is empty after it. -/
theorem Ready.parse (h : Ready world d inputFile outputFile m) (outputFirst : Bool)
    (algorithm : Algorithm) (mode : Mode) (decode : Bool) :
    parse ((Commands.Block inputFile outputFile outputFirst key algorithm mode decode).parsers world)
      d = (none, d.put (world.resolve outputFile) [] h.createError) := by
  rw [Commands.parsers]
  cases outputFirst with
  | true =>
    rw [if_pos rfl, Endec.parse, canWrite_of_none h.createError]
    dsimp only
    rw [Endec.parse, fileExists_of_content h.content_put]
    rfl
  | false =>
    rw [if_neg Bool.false_ne_true, Endec.parse, fileExists_of_content h.content]
    dsimp only
    rw [Endec.parse, canWrite_of_none h.createError]
    rfl

theorem Ready.main_eq (h : Ready world d inputFile outputFile m) (outputFirst : Bool)
    (algorithm : Algorithm) (mode : Mode) (decode : Bool) {code : List Byte}
    (hcode : mode.code world.stableHash decode
      (if world.resolve inputFile = world.resolve outputFile then [] else m) key algorithm =
        some code) :
    main world (.Block inputFile outputFile outputFirst key algorithm mode decode) d =
      (.done [], d.put (world.resolve outputFile) code h.createError) := by
  have hread : (d.put (world.resolve outputFile) [] h.createError).read (world.resolve inputFile) =
      some (if world.resolve inputFile = world.resolve outputFile then [] else m) := by
    rw [Disk.read, Disk.put_mayRead, if_pos h.mayRead, h.content_put]
  have hall : written none code = code := List.take_length
  rw [main, mainUntil, h.parse]
  dsimp only
  rw [Commands.execute, hread]
  dsimp only
  rw [hcode]
  dsimp only
  rw [Endec.write, Disk.create_put, hall, if_pos rfl]

theorem toUtf8_ne_nil (hkey : key ≠ "") : toUtf8 key.toList ≠ [] := by
  have hlist : key.toList ≠ [] := fun h => hkey (String.toList_eq_nil_iff.mp h)
  obtain ⟨c, cs, hcs⟩ := List.exists_cons_of_ne_nil hlist
  rw [hcs, toUtf8, Utf.encode_cons, List.map_append]
  intro hnil
  have hchar := List.map_eq_nil_iff.mp (List.append_eq_nil_iff.mp hnil).1
  exact Utf.encodeChar_ne_nil c hchar

/-- With a key that is not empty the mode gives an output for every input, as long as it, and
decoding gives the input back. -/
theorem exists_code (hkey : key ≠ "") (stableHash : StableHash) (mode : Mode)
    (algorithm : Algorithm) : ∃ code : Bool → List Byte → List Byte,
      (∀ decode m, mode.code stableHash decode m key algorithm = some (code decode m)) ∧
        (∀ decode, code decode [] = []) ∧ ∀ m, code true (code false m) = m := by
  obtain ⟨rc6, hnew, -⟩ := RC6.new_eq (toUtf8_ne_nil hkey)
  cases mode
  cases algorithm
  let code := fun (_ : Bool) m => OFB.encode m (RC6.blockEndec rc6)
    (createInitializationVector stableHash (stableHash.ofStr (toUtf8 key.toList)))
  refine ⟨code, fun decode m => ?_, fun decode => ?_, fun m => OFB.encode_encode _ _ _⟩
  · cases decode <;> simp [Mode.code, Mode.encode, Mode.decode, Algorithm.buildBlockEndec, hnew, code]
  · exact List.length_eq_zero_iff.mp (OFB.encode_length _ _ _)

/-- What was encoded into a file is decoded to what it was, unless one of the two commands has the
same file for its input and its output, which makes it empty. -/
theorem block_round_trip_iff (hkey : key ≠ "") (algorithm : Algorithm) (mode : Mode)
    (outputFirst outputFirst' : Bool) {decodedFile : String}
    (h : Ready world d inputFile outputFile m)
    (hread : d.mayRead (world.resolve outputFile) = true)
    (hcreate : d.createError (world.resolve decodedFile) = none) :
    ∃ d₁ d₂, main world (.Block inputFile outputFile outputFirst key algorithm mode false) d =
        (.done [], d₁) ∧
      main world (.Block outputFile decodedFile outputFirst' key algorithm mode true) d₁ =
        (.done [], d₂) ∧
      (d₂.content (world.resolve decodedFile) = some m ↔
        world.resolve inputFile ≠ world.resolve outputFile ∧
          world.resolve outputFile ≠ world.resolve decodedFile ∨ m = []) := by
  obtain ⟨code, hcode, hnil, hround⟩ := exists_code hkey world.stableHash mode algorithm
  have hfirst := h.main_eq outputFirst algorithm mode false (hcode _ _)
  generalize hm' : (if world.resolve inputFile = world.resolve outputFile then [] else m) = m'
    at hfirst
  have hready : Ready world (d.put (world.resolve outputFile) (code false m') h.createError)
      outputFile decodedFile (code false m') :=
    ⟨Disk.put_content_self _ _ _ _, hread, hcreate⟩
  refine ⟨_, _, hfirst, hready.main_eq outputFirst' algorithm mode true (hcode _ _), ?_⟩
  rw [Disk.put_content_self, Option.some_inj, ← hm']
  by_cases hsame : world.resolve inputFile = world.resolve outputFile
  · rw [if_pos hsame, hnil, ite_self, hnil]
    constructor
    · exact fun hm => .inr hm.symm
    · rintro (⟨hne, -⟩ | rfl)
      · exact absurd hsame hne
      · rfl
  · rw [if_neg hsame]
    by_cases hsame' : world.resolve outputFile = world.resolve decodedFile
    · rw [if_pos hsame', hnil]
      constructor
      · exact fun hm => .inr hm.symm
      · rintro (⟨-, hne⟩ | rfl)
        · exact absurd hsame' hne
        · rfl
    · rw [if_neg hsame', hround]
      exact iff_of_true rfl (.inl ⟨hsame, hsame'⟩)

/-- One file, which is encoded into another one and back. -/
def notesDisk (m : List Byte) : Disk String where
  isDir _ := false
  createError _ := none
  mayRead _ := true
  content s := if s = "notes" then some m else none
  isDir_content _ h := by cases h
  isDir_createError _ h := by cases h

def notesWorld : World String := ⟨id, ⟨fun _ => 5, id⟩, fun _ => 'x', [], true⟩

theorem notesDisk_content (m : List Byte) :
    (notesDisk m).content (notesWorld.resolve "notes") = some m := by
  simp [notesDisk, notesWorld]

theorem block_round_trip_notes : ∃ d₁ d₂,
    main notesWorld (.Block "notes" "secret" true "KEY" .RC6 .OFB false) (notesDisk [1, 2, 3]) =
      (.done [], d₁) ∧
    main notesWorld (.Block "secret" "notes" false "KEY" .RC6 .OFB true) d₁ = (.done [], d₂) ∧
      (d₂.content "notes" = some [1, 2, 3] ↔
        "notes" ≠ "secret" ∧ "secret" ≠ "notes" ∨ ([1, 2, 3] : List Byte) = []) :=
  block_round_trip_iff (by decide) .RC6 .OFB true false
    ⟨notesDisk_content _, rfl, rfl⟩ rfl rfl

end Block

/-! ### The classic command -/

section Classic

variable {File : Type} {world : World File} {d : Disk File} {file key : String}
  {text : List Char}

/-- The line break after the code stands where a random symbol would. -/
theorem decode_append_newline (g : Cardan.Grille) (randomSymbol : ℕ → Char) {n : ℕ}
    {code : List Char} (h : code.length = 16 * n) : g.decode randomSymbol (code ++ ['\n']) =
      g.decode (fun i => if i = 0 then '\n' else randomSymbol (i - 1)) code := by
  induction n generalizing code with
  | zero =>
    obtain rfl := List.length_eq_zero_iff.mp h
    rw [Cardan.Grille.decode, if_neg (by decide), Cardan.Grille.decode, if_neg (by decide)]
    rfl
  | succ n ih =>
    have hdrop : (code.drop 16).length = 16 * n := by
      rw [List.length_drop]
      omega
    have htake : (code.take 16).length = 16 := by
      rw [List.length_take]
      omega
    have hwhole := g.decode_append randomSymbol htake (code.drop 16 ++ ['\n'])
    rw [← List.append_assoc, List.take_append_drop, ih hdrop, ← g.decode_append _ htake,
      List.take_append_drop] at hwhole
    exact hwhole

theorem read_text (h : d.content (world.resolve file) = some (toUtf8 text))
    (hread : d.mayRead (world.resolve file) = true) :
    (d.read (world.resolve file)).bind fromUtf8 = some text := by
  rw [Disk.read, if_pos hread, h, Option.bind_some, fromUtf8_toUtf8]

variable [DecidableEq File]

theorem main_classic {decode : Bool} {code : List Char}
    (h : d.content (world.resolve file) = some (toUtf8 text))
    (hread : d.mayRead (world.resolve file) = true)
    (hcode : Method.code world.stableHash world.randomSymbol .Cardan decode text key = some code) :
    main world (.Classic file key .Cardan decode) d = (.done (code ++ ['\n']), d) := by
  rw [main, mainUntil, Commands.parsers, parse, fileExists_of_content h]
  dsimp only
  rw [parse]
  dsimp only
  rw [Commands.execute, read_text h hread]
  dsimp only
  rw [hcode]

/-- The text that is printed when a file with a printed code is decoded begins with the text that
was encoded, whatever random symbols the two runs come upon. -/
theorem classic_round_trip {g : Cardan.Grille}
    (hkey : Cardan.Grille.new world.stableHash (toUtf8 key.toList) = some g) (hg : g.HasOpening)
    (h : d.content (world.resolve file) = some (toUtf8 text))
    (hread : d.mayRead (world.resolve file) = true) :
    ∃ printed, main world (.Classic file key .Cardan false) d = (.done printed, d) ∧
      ∀ (world' : World File) (d' : Disk File) (codeFile : String),
        world'.stableHash = world.stableHash →
        d'.content (world'.resolve codeFile) = some (toUtf8 printed) →
        d'.mayRead (world'.resolve codeFile) = true →
        ∃ printed', main world' (.Classic codeFile key .Cardan true) d' = (.done printed', d') ∧
          text <+: printed' := by
  obtain ⟨code, hcode, ⟨n, hn⟩, -⟩ :=
    Cardan.Grille.encodeLoop_spec hg world.randomSymbol world.randomSymbol 0 le_rfl
  have hencode : Method.code world.stableHash world.randomSymbol .Cardan false text key =
      some code := by
    show Cardan.encode _ _ _ _ = _
    rw [Cardan.encode, hkey, Option.bind_some]
    exact hcode
  refine ⟨_, main_classic h hread hencode, fun world' d' codeFile hhash hcontent hread' => ?_⟩
  have hdecode : Method.code world'.stableHash world'.randomSymbol .Cardan true (code ++ ['\n']) key =
      some (g.decode world'.randomSymbol (code ++ ['\n'])) := by
    show Cardan.decode _ _ _ _ = _
    rw [Cardan.decode, hhash, hkey]
    rfl
  refine ⟨_, main_classic hcontent hread' hdecode, ?_⟩
  obtain ⟨code', hcode', -, hprefix⟩ := Cardan.Grille.encodeLoop_spec hg world.randomSymbol
    (fun i => if i = 0 then '\n' else world'.randomSymbol (i - 1)) 0 (le_refl text.length)
  obtain rfl : code' = code := Option.some_inj.mp (hcode'.symm.trans hcode)
  rw [decode_append_newline g _ hn]
  exact hprefix.trans (List.prefix_append _ _)

theorem classic_round_trip_notes :
    ∃ printed, main notesWorld (.Classic "notes" "KEY" .Cardan false)
        (notesDisk (toUtf8 ['а', 'b'])) = (.done printed, notesDisk (toUtf8 ['а', 'b'])) ∧
      ∀ (world' : World String) (d' : Disk String) (codeFile : String),
        world'.stableHash = notesWorld.stableHash →
        d'.content (world'.resolve codeFile) = some (toUtf8 printed) →
        d'.mayRead (world'.resolve codeFile) = true →
        ∃ printed', main world' (.Classic codeFile "KEY" .Cardan true) d' = (.done printed', d') ∧
          ['а', 'b'] <+: printed' :=
  classic_round_trip (g := ⟨.First, .None, .None, .None⟩) rfl (by decide) (notesDisk_content _) rfl

end Classic

end Itmo.Endec
