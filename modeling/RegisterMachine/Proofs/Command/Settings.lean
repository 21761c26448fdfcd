import RegisterMachine.Command.Runner

namespace RegisterMachine.Command.Runner

/-!
# Options of the runner

The arguments after the image are read from left to right.  They are options
with what they ask for (`Reads`), or somewhere behind such options one is wrong
(`Misused`).  They are read exactly in the first case, and of all that ask for
the same kind of thing the last one counts.
-/

/-- What one option asks for. -/
inductive Setting where
  | memory (size : Nat)
  | maxSteps (limit : Nat)
  | dump (path : String)
  | trace
  | hex
  deriving Repr, DecidableEq

namespace Setting

/-- The memory size that an option asks for. -/
def memory? : Setting → Option Nat
  | .memory size => some size
  | _ => none

/-- The number of steps that an option allows. -/
def maxSteps? : Setting → Option Nat
  | .maxSteps limit => some limit
  | _ => none

/-- The file that an option names for the memory. -/
def dump? : Setting → Option String
  | .dump path => some path
  | _ => none

end Setting

/-- Arguments are options, each with its value if it takes one, and ask for settings. -/
inductive Reads : List String → List Setting → Prop where
  | nil : Reads [] []
  | memory {value : String} {size : Nat} {rest : List String}
      {settings : List Setting} :
      count? value = some size → Reads rest settings →
        Reads ("--memory" :: value :: rest) (.memory size :: settings)
  | maxSteps {value : String} {limit : Nat} {rest : List String}
      {settings : List Setting} :
      count? value = some limit → Reads rest settings →
        Reads ("--max-steps" :: value :: rest) (.maxSteps limit :: settings)
  | dump {path : String} {rest : List String} {settings : List Setting} :
      Reads rest settings →
        Reads ("--dump-memory" :: path :: rest) (.dump path :: settings)
  | trace {rest : List String} {settings : List Setting} :
      Reads rest settings → Reads ("--trace" :: rest) (.trace :: settings)
  | hex {rest : List String} {settings : List Setting} :
      Reads rest settings → Reads ("--hex" :: rest) (.hex :: settings)

/-- Whether an argument is an option. -/
def isOption (argument : String) : Bool :=
  takesValue argument || argument == "--trace" || argument == "--hex"

/-- The first argument is no option, or it lacks its value, or the value is no count. -/
inductive Wrong : List String → Prop where
  | unknown {argument : String} {rest : List String} :
      isOption argument = false → Wrong (argument :: rest)
  | missingValue {option : String} :
      takesValue option = true → Wrong [option]
  | memory {value : String} {rest : List String} :
      count? value = none → Wrong ("--memory" :: value :: rest)
  | maxSteps {value : String} {rest : List String} :
      count? value = none → Wrong ("--max-steps" :: value :: rest)

/-- An option is wrong, after others that are not. -/
def Misused (arguments : List String) : Prop :=
  ∃ given settings rest,
    arguments = given ++ rest ∧ Reads given settings ∧ Wrong rest

/-- Of the settings that a selection applies to, what the last one selects. -/
def lastOf {α : Type} (select : Setting → Option α) (settings : List Setting) :
    Option α :=
  (settings.filterMap select).getLast?

/-- Options changed by settings; of settings of one kind the last one counts. -/
def Options.applying (options : Options) (settings : List Setting) : Options where
  memorySize := (lastOf Setting.memory? settings).getD options.memorySize
  maxSteps := (lastOf Setting.maxSteps? settings).or options.maxSteps
  hexDump := options.hexDump || settings.contains .hex
  trace := options.trace || settings.contains .trace
  dumpPath := (lastOf Setting.dump? settings).or options.dumpPath

section Parsing

theorem lastOf_cons
    {α : Type}
    (select : Setting → Option α)
    (setting : Setting)
    (settings : List Setting) :
    lastOf select (setting :: settings) =
      (lastOf select settings).or (select setting) := by
  rw [lastOf, lastOf, List.filterMap_cons]
  cases select setting with
  | none =>
      exact (Option.or_none).symm
  | some value =>
      rw [List.getLast?_cons]
      cases (settings.filterMap select).getLast? <;> rfl

/-- Options changed by one setting. -/
def Options.change (options : Options) : Setting → Options
  | .memory size => { options with memorySize := size }
  | .maxSteps limit => { options with maxSteps := some limit }
  | .dump path => { options with dumpPath := some path }
  | .trace => { options with trace := true }
  | .hex => { options with hexDump := true }

theorem Options.applying_nil (options : Options) : options.applying [] = options := by
  simp [applying, lastOf]

theorem Options.applying_cons
    (options : Options)
    (setting : Setting)
    (settings : List Setting) :
    options.applying (setting :: settings) =
      (options.change setting).applying settings := by
  cases setting <;>
    simp [applying, change, lastOf_cons, Setting.memory?, Setting.maxSteps?,
      Setting.dump?]

/-- Options that are right are read before all that follows them. -/
theorem parse_append_of_reads
    {given : List String}
    {settings : List Setting}
    (reads : Reads given settings)
    (options : Options)
    (rest : List String) :
    options.parse (given ++ rest) = (options.applying settings).parse rest := by
  induction reads generalizing options with
  | nil =>
      rw [List.nil_append, Options.applying_nil]
  | memory isCount _ inductionHypothesis =>
      rw [Options.applying_cons, ← inductionHypothesis]
      simp [Options.parse, takesValue, Options.set?, isCount, Options.change]
  | maxSteps isCount _ inductionHypothesis =>
      rw [Options.applying_cons, ← inductionHypothesis]
      simp [Options.parse, takesValue, Options.set?, isCount, Options.change]
  | dump _ inductionHypothesis =>
      rw [Options.applying_cons, ← inductionHypothesis]
      simp [Options.parse, takesValue, Options.set?, Options.change]
  | trace _ inductionHypothesis =>
      rw [Options.applying_cons, ← inductionHypothesis, List.cons_append,
        Options.parse.eq_def]
      simp [takesValue, Options.change]
  | hex _ inductionHypothesis =>
      rw [Options.applying_cons, ← inductionHypothesis, List.cons_append,
        Options.parse.eq_def]
      simp [takesValue, Options.change]

variable {arguments : List String}

/-- A wrong option ends the reading in an error. -/
theorem exists_parse_eq_error_of_wrong
    (wrong : Wrong arguments)
    (options : Options) :
    ∃ cause, options.parse arguments = .error cause := by
  cases wrong with
  | @unknown argument rest unknown =>
      simp only [isOption, Bool.or_eq_false_iff, beq_eq_false_iff_ne] at unknown
      exact ⟨.unexpected argument, by rw [Options.parse.eq_def]; simp [unknown]⟩
  | @missingValue option takes =>
      exact ⟨.missingValue option, by rw [Options.parse.eq_def]; simp [takes]⟩
  | @memory value rest noCount =>
      refine ⟨.memorySize value, ?_⟩
      simp [Options.parse, takesValue, Options.set?, noCount]
  | @maxSteps value rest noCount =>
      refine ⟨.maxSteps value, ?_⟩
      simp [Options.parse, takesValue, Options.set?, noCount]

theorem exists_parse_eq_error
    (misused : Misused arguments)
    (options : Options) :
    ∃ cause, options.parse arguments = .error cause := by
  obtain ⟨given, settings, rest, rfl, reads, wrong⟩ := misused
  rw [parse_append_of_reads reads]
  exact exists_parse_eq_error_of_wrong wrong _

theorem takesValue_iff {option : String} :
    takesValue option = true ↔
      option = "--memory" ∨ option = "--max-steps" ∨ option = "--dump-memory" := by
  simp [takesValue, or_assoc]

theorem wrong_of_set?_eq_error
    {options : Options}
    {option value : String}
    {cause : OptionError}
    (takes : takesValue option = true)
    (failed : options.set? option value = .error cause)
    (rest : List String) :
    Wrong (option :: value :: rest) := by
  obtain rfl | rfl | rfl := takesValue_iff.mp takes
  · cases isCount : count? value with
    | none => exact .memory isCount
    | some size => simp [Options.set?, isCount] at failed
  · cases isCount : count? value with
    | none => exact .maxSteps isCount
    | some limit => simp [Options.set?, isCount] at failed
  · simp [Options.set?] at failed

theorem exists_reads_of_set?_eq_ok
    {options changed : Options}
    {option value : String}
    (takes : takesValue option = true)
    (set : options.set? option value = .ok changed) :
    ∃ setting, Reads [option, value] [setting] := by
  obtain rfl | rfl | rfl := takesValue_iff.mp takes
  · cases isCount : count? value with
    | none => simp [Options.set?, isCount] at set
    | some size => exact ⟨.memory size, .memory isCount .nil⟩
  · cases isCount : count? value with
    | none => simp [Options.set?, isCount] at set
    | some limit => exact ⟨.maxSteps limit, .maxSteps isCount .nil⟩
  · exact ⟨.dump value, .dump .nil⟩

theorem Reads.append
    {first second : List String}
    {settings others : List Setting}
    (reads : Reads first settings)
    (later : Reads second others) :
    Reads (first ++ second) (settings ++ others) := by
  induction reads with
  | nil => exact later
  | memory isCount _ inductionHypothesis => exact .memory isCount inductionHypothesis
  | maxSteps isCount _ inductionHypothesis => exact .maxSteps isCount inductionHypothesis
  | dump _ inductionHypothesis => exact .dump inductionHypothesis
  | trace _ inductionHypothesis => exact .trace inductionHypothesis
  | hex _ inductionHypothesis => exact .hex inductionHypothesis

/-- Options that are right do not change how it is with what follows them. -/
theorem Reads.append_reads_or_misused
    {given rest : List String}
    {settings : List Setting}
    (reads : Reads given settings)
    (later : (∃ settings, Reads rest settings) ∨ Misused rest) :
    (∃ settings, Reads (given ++ rest) settings) ∨ Misused (given ++ rest) := by
  obtain ⟨others, readsLater⟩ |
    ⟨more, others, wrongs, rfl, readsMore, wrong⟩ := later
  · exact .inl ⟨_, reads.append readsLater⟩
  · exact .inr ⟨given ++ more, _, wrongs, (List.append_assoc ..).symm,
      reads.append readsMore, wrong⟩

/-- Arguments are options that are right, or one of them is wrong. -/
theorem reads_or_misused (arguments : List String) :
    (∃ settings, Reads arguments settings) ∨ Misused arguments := by
  have misused {wrongs : List String} (wrong : Wrong wrongs) : Misused wrongs :=
    ⟨[], [], wrongs, rfl, .nil, wrong⟩
  generalize ({} : Options) = options
  fun_induction Options.parse options arguments with
  | case1 =>
      exact .inl ⟨[], .nil⟩
  | case2 _ option takes =>
      exact .inr (misused (.missingValue takes))
  | case3 _ option takes value rest cause failed =>
      exact .inr (misused (wrong_of_set?_eq_error takes failed rest))
  | case4 _ option takes value rest changed set inductionHypothesis =>
      obtain ⟨setting, reads⟩ := exists_reads_of_set?_eq_ok takes set
      exact reads.append_reads_or_misused inductionHypothesis
  | case5 _ rest _ inductionHypothesis =>
      exact (Reads.trace .nil).append_reads_or_misused inductionHypothesis
  | case6 _ rest _ _ inductionHypothesis =>
      exact (Reads.hex .nil).append_reads_or_misused inductionHypothesis
  | case7 _ argument rest noValue notTrace notHex =>
      refine .inr (misused (.unknown ?_))
      simp [isOption, noValue, notTrace, notHex]

theorem parse_of_reads
    {settings : List Setting}
    (reads : Reads arguments settings)
    (options : Options) :
    options.parse arguments = .ok (options.applying settings) := by
  have parsed := parse_append_of_reads reads options []
  rwa [List.append_nil, Options.parse] at parsed

/-- What options ask for is said by the arguments. -/
theorem Reads.applying_eq
    {settings others : List Setting}
    (reads : Reads arguments settings)
    (otherReads : Reads arguments others) :
    Options.applying {} settings = Options.applying {} others :=
  Except.ok.inj ((parse_of_reads reads {}).symm.trans (parse_of_reads otherReads {}))

theorem Reads.not_misused
    {settings : List Setting}
    (reads : Reads arguments settings) :
    ¬ Misused arguments := by
  intro misused
  obtain ⟨cause, failed⟩ := exists_parse_eq_error misused {}
  rw [parse_of_reads reads] at failed
  cases failed

end Parsing

end RegisterMachine.Command.Runner
