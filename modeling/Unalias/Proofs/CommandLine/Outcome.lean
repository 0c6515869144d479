import Unalias.CommandLine.Session
import Unalias.Proofs.Batch.Disk

/-! What a run of the command line leaves behind: which files hold something else than before, and
what its exit code says of it. -/
namespace Unalias

/-- The first line of the input is no word of consent. A line that is no text is none either. -/
def Terminal.Dissents (input : List UInt8) : Prop :=
  ∀ line, (Content.ofBytes ⟨(readLine input).1.toArray⟩).text? = some line →
    (Text.trim line).map Char.toLower ≠ ['y'] ∧
      (Text.trim line).map Char.toLower ≠ ['y', 'e', 's']

namespace Session

/-- The settings are where they are looked for, and can be understood. -/
structure Loaded (o : Options) (d : Disk) (file : Path) (config : Config) : Prop where
  located : Settings.locate d o.settings? (workingPath d) = .ok file
  read : Settings.read d file = .ok config

/-- The folder of the settings, where targets start. -/
def rootOf (d : Disk) (file : Path) : Path := file.parent?.getD (workingPath d)

/-- What a run sets out to do, when nothing stops it before that. -/
inductive Planned (compiles : Text → Bool) (o : Options) (d : Disk) : Plan → Prop
  | intro {file : Path} {config : Config} {files : List Path} (loaded : Loaded o d file config)
      (targeted : usableTargets o.targets ≠ [])
      (discovered : Discovery.discover d (rootOf d file) (usableTargets o.targets) o.excludes =
        .ok files) :
      Planned compiles o d ⟨rootOf d file, Table.build compiles config o.excludedAliases, files⟩

/-- What stops a run before it looks at any file. -/
inductive Stopped (o : Options) (d : Disk) : Error → Prop
  | unlocated {e : Error} (missing : Settings.locate d o.settings? (workingPath d) = .error e) :
      Stopped o d e
  | unloaded {file : Path} {e : Error}
      (located : Settings.locate d o.settings? (workingPath d) = .ok file)
      (flawed : Settings.read d file = .error e) : Stopped o d e
  | untargeted {file : Path} {config : Config} (loaded : Loaded o d file config)
      (none : usableTargets o.targets = []) : Stopped o d .noTargets
  | undiscovered {file : Path} {config : Config} {e : Error} (loaded : Loaded o d file config)
      (targeted : usableTargets o.targets ≠ [])
      (flawed : Discovery.discover d (rootOf d file) (usableTargets o.targets) o.excludes =
        .error e) : Stopped o d e

variable {compiles : Text → Bool} {o : Options} {d : Disk} {input : List UInt8}

theorem prepare_of_planned {plan : Plan} (h : Planned compiles o d plan) :
    (prepare compiles o d).2 = .ok plan := by
  obtain ⟨⟨located, read⟩, targeted, discovered⟩ := h
  simp only [prepare, located, read, selectFiles, if_neg targeted]
  rw [rootOf] at discovered
  rw [discovered]
  rfl

theorem prepare_of_stopped {e : Error} (h : Stopped o d e) :
    (prepare compiles o d).2 = .error e := by
  cases h with
  | unlocated missing => simp only [prepare, missing]
  | unloaded located flawed => simp only [prepare, located, flawed]
  | untargeted loaded none =>
    simp only [prepare, loaded.located, loaded.read, selectFiles, if_pos none]
  | undiscovered loaded targeted flawed =>
    simp only [prepare, loaded.located, loaded.read, selectFiles, if_neg targeted]
    rw [rootOf] at flawed
    rw [flawed]

/- A run either has a plan or is stopped by one of the causes. -/
theorem planned_or_stopped (compiles : Text → Bool) (o : Options) (d : Disk) :
    (∃ plan, Planned compiles o d plan) ∨ ∃ e, Stopped o d e := by
  cases located : Settings.locate d o.settings? (workingPath d) with
  | error e => exact .inr ⟨e, .unlocated located⟩
  | ok file =>
    cases read : Settings.read d file with
    | error e => exact .inr ⟨e, .unloaded located read⟩
    | ok config =>
      have loaded : Loaded o d file config := ⟨located, read⟩
      by_cases targeted : usableTargets o.targets = []
      · exact .inr ⟨_, .untargeted loaded targeted⟩
      · cases discovered :
            Discovery.discover d (rootOf d file) (usableTargets o.targets) o.excludes with
        | error e => exact .inr ⟨e, .undiscovered loaded targeted discovered⟩
        | ok files => exact .inl ⟨_, .intro loaded targeted discovered⟩

theorem Planned.unique {plan plan' : Plan} (h : Planned compiles o d plan)
    (h' : Planned compiles o d plan') : plan = plan' :=
  Except.ok.inj ((prepare_of_planned h).symm.trans (prepare_of_planned h'))

theorem Planned.not_stopped {plan : Plan} (h : Planned compiles o d plan) (e : Error) :
    ¬Stopped o d e := by
  intro stopped
  have both := (prepare_of_planned h).symm.trans (prepare_of_stopped stopped)
  contradiction

/-- The changes that a plan comes to. -/
def changes (d : Disk) (plan : Plan) : List Change := Batch.plan plan.table plan.files d

/-- The answer to the question that is asked before the changes are written. -/
def answer (o : Options) (d : Disk) (input : List UInt8) (plan : Plan) : Except Fault Bool :=
  consent o input (Batch.consent plan.table plan.files d)

/-- What ends a run without a result: what stops it early, and a prompt that fails. -/
inductive Fatal (compiles : Text → Bool) (o : Options) (d : Disk) (input : List UInt8) :
    Error → Prop
  | stopped {e : Error} (h : Stopped o d e) : Fatal compiles o d input e
  | unanswered {plan : Plan} {f : Fault} (planned : Planned compiles o d plan)
      (due : changes d plan ≠ []) (wet : o.dryRun = false)
      (failed : answer o d input plan = .error f) : Fatal compiles o d input (.prompt f)

/-- A file of the plan that cannot be read, or a change that was to be written and cannot be. -/
inductive Failed (compiles : Text → Bool) (o : Options) (d : Disk) (input : List UInt8) :
    Path → Fault → Prop
  | unread {plan : Plan} {p : Path} {f : Fault} (planned : Planned compiles o d plan)
      (listed : p ∈ plan.files) (failed : d.read p = .error f) : Failed compiles o d input p f
  | unwritten {plan : Plan} {p : Path} {f : Fault} (planned : Planned compiles o d plan)
      (due : changes d plan ≠ []) (wet : o.dryRun = false)
      (agreed : answer o d input plan = .ok true)
      (failed : Batch.Refused (changes d plan) d p f) : Failed compiles o d input p f

/-- The batch of a plan. -/
def batch (o : Options) (d : Disk) (input : List UInt8) (plan : Plan) : Outcome Disk :=
  Batch.run plan.table o.dryRun (consent o input) plan.files d

theorem run_of_stopped {e : Error} (h : Stopped o d e) :
    (run compiles o d input).code = 1 ∧ (run compiles o d input).disk = d := by
  have prepared : (prepare compiles o d).2 = .error e := prepare_of_stopped h
  unfold run
  split
  · exact ⟨rfl, rfl⟩
  · rename_i shown
    rw [shown] at prepared
    contradiction

theorem run_of_planned {plan : Plan} (h : Planned compiles o d plan) :
    (run compiles o d input).disk = (batch o d input plan).store ∧
      (run compiles o d input).code =
        match (batch o d input plan).result with
        | .error _ => 1
        | .ok s => if s.failures = [] then 0 else 1 := by
  have prepared := prepare_of_planned h
  unfold run
  split
  · rename_i shown
    rw [shown] at prepared
    contradiction
  · rename_i shown
    rw [shown] at prepared
    cases Except.ok.inj prepared
    rw [batch]
    dsimp only
    cases (Batch.run plan.table o.dryRun (consent o input) plan.files d).result <;>
      exact ⟨rfl, rfl⟩

/- With a plan, only the prompt can be fatal. -/
theorem fatal_iff_of_planned {plan : Plan} (h : Planned compiles o d plan) {e : Error} :
    Fatal compiles o d input e ↔ (batch o d input plan).result = .error e := by
  rw [batch, Batch.result_eq_error_iff, not_or, Bool.not_eq_true]
  constructor
  · intro fatal
    cases fatal with
    | stopped stopped => exact absurd stopped (h.not_stopped e)
    | unanswered planned due wet failed =>
      cases planned.unique h
      exact ⟨⟨due, wet⟩, _, failed, rfl⟩
  · rintro ⟨⟨due, wet⟩, f, failed, rfl⟩
    exact .unanswered h due wet failed

theorem failed_iff_of_planned {plan : Plan} (h : Planned compiles o d plan) {p : Path} {f : Fault} :
    Failed compiles o d input p f ↔
      (p, f) ∈ (batch o d input plan).events.filterMap Event.failed? := by
  rw [batch, Batch.failed_mem_run_iff, not_or, Bool.not_eq_true]
  constructor
  · intro failed
    cases failed with
    | unread planned listed failed =>
      cases planned.unique h
      exact .inl ⟨listed, failed⟩
    | unwritten planned due wet agreed failed =>
      cases planned.unique h
      exact .inr ⟨⟨due, wet⟩, agreed, failed⟩
  · rintro (⟨listed, failed⟩ | ⟨⟨due, wet⟩, agreed, failed⟩)
    · exact .unread h listed failed
    · exact .unwritten h due wet agreed failed

theorem code_run_eq_zero_iff :
    (run compiles o d input).code = 0 ↔
      (∀ e, ¬Fatal compiles o d input e) ∧ ∀ p f, ¬Failed compiles o d input p f := by
  rcases planned_or_stopped compiles o d with ⟨plan, h⟩ | ⟨e, stopped⟩
  · simp only [(run_of_planned h).2, fatal_iff_of_planned h, failed_iff_of_planned h]
    cases result : (batch o d input plan).result with
    | error e => simp
    | ok s =>
      have failures : s.failures = (batch o d input plan).events.filterMap Event.failed? :=
        Batch.failures_run _ _ _ _ _ result
      have none_iff : s.failures = [] ↔ ∀ p f, (p, f) ∉ s.failures := by
        rw [List.eq_nil_iff_forall_not_mem]
        exact ⟨fun none p f => none (p, f), fun none failure => none failure.1 failure.2⟩
      rw [← failures, ← none_iff]
      simp
  · rw [(run_of_stopped stopped).1]
    constructor
    · intro zero
      contradiction
    · rintro ⟨unfailing, -⟩
      exact absurd (.stopped stopped) (unfailing e)

theorem code_run_zero_or_one (compiles : Text → Bool) (o : Options) (d : Disk)
    (input : List UInt8) :
    (run compiles o d input).code = 0 ∨ (run compiles o d input).code = 1 := by
  rcases planned_or_stopped compiles o d with ⟨plan, h⟩ | ⟨e, stopped⟩
  · rw [(run_of_planned h).2]
    split
    · exact .inr rfl
    · split
      · exact .inl rfl
      · exact .inr rfl
  · exact .inr (run_of_stopped stopped).1

theorem alike_run (compiles : Text → Bool) (o : Options) (d : Disk) (input : List UInt8) :
    d.Alike (run compiles o d input).disk := by
  rcases planned_or_stopped compiles o d with ⟨plan, h⟩ | ⟨e, stopped⟩
  · rw [(run_of_planned h).1]
    exact Batch.alike_run _ _ _ _ _
  · rw [(run_of_stopped stopped).2]
    exact .refl d

theorem changed_run {here : Location} {old new : Content}
    (before : d.root.contentAt? here = some old)
    (after : (run compiles o d input).disk.root.contentAt? here = some new) (changed : new ≠ old) :
    ∃ plan, Planned compiles o d plan ∧ ∃ p ∈ plan.files, ∃ t, d.locate p = .ok here ∧
      old = .text t ∧ plan.table.found t ≠ [] ∧
        new = .text (plan.table.change p t).content := by
  rcases planned_or_stopped compiles o d with ⟨plan, h⟩ | ⟨e, stopped⟩
  · rw [(run_of_planned h).1] at after
    exact ⟨plan, h, Batch.changed_run before after changed⟩
  · rw [(run_of_stopped stopped).2, before] at after
    cases after
    exact absurd rfl changed

/- Without the option that agrees beforehand, the first line of the input has to agree. -/
theorem consent_of_dissents (asked : o.yes = false) (dissents : Terminal.Dissents input)
    (question : String) : consent o input question ≠ .ok true := by
  rw [consent, if_neg (by rw [asked]; exact Bool.false_ne_true), Terminal.confirm]
  dsimp only
  split
  · rename_i line text
    obtain ⟨short, long⟩ := dissents line text
    simp [Terminal.agrees, short, long]
  · intro agreed
    contradiction

/-- A run that is only tried, that is not agreed to, or that ends in an error leaves the disk as
it is. -/
theorem disk_run_of_not_agreed
    (h : o.dryRun = true ∨ (o.yes = false ∧ Terminal.Dissents input) ∨
      ∃ e, Fatal compiles o d input e) :
    (run compiles o d input).disk = d := by
  rcases planned_or_stopped compiles o d with ⟨plan, planned⟩ | ⟨e, stopped⟩
  · rw [(run_of_planned planned).1]
    rcases Batch.store_run_cases plan.table o.dryRun (consent o input) plan.files d with
      same | ⟨wet, agreed, -⟩
    · exact same
    · rcases h with dry | ⟨asked, dissents⟩ | ⟨e, fatal⟩
      · rw [dry] at wet
        contradiction
      · exact absurd agreed (consent_of_dissents asked dissents _)
      · obtain ⟨-, f, failed, -⟩ :=
          (Batch.result_eq_error_iff ..).mp ((fatal_iff_of_planned planned).mp fatal)
        rw [agreed] at failed
        contradiction
  · exact (run_of_stopped stopped).2

end Session

namespace CommandLine

/-- A run with arguments that can be read touches no file that it should not, and its exit code
says whether all went well. Files may be barred or locked on the disk, but no folder is: a folder
that cannot be entered is not among the disks that this speaks of. -/
theorem run_safe (compiles : Text → Bool) (args : List Text) (log? : Option String) (d : Disk)
    (input : List UInt8) {o : Options} (parsed : Options.ofArguments args = .ok o) :
    let exit := run compiles args log? d input
    (∀ here, (exit.disk.root.at? here).map Node.isFolder =
      (d.root.at? here).map Node.isFolder) ∧
    (o.dryRun = true ∨ (o.yes = false ∧ Terminal.Dissents input) ∨
      (∃ e, Session.Fatal compiles o d input e) → exit.disk = d) ∧
    (∀ here old new, d.root.contentAt? here = some old →
      exit.disk.root.contentAt? here = some new → new ≠ old →
        ∃ plan, Session.Planned compiles o d plan ∧ ∃ p ∈ plan.files, ∃ t, d.locate p = .ok here ∧
          old = .text t ∧ plan.table.found t ≠ [] ∧
            new = .text (plan.table.change p t).content) ∧
    (exit.code = 0 ↔
      (∀ e, ¬Session.Fatal compiles o d input e) ∧ ∀ p f, ¬Session.Failed compiles o d input p f) ∧
    (exit.code = 0 ∨ exit.code = 1) := by
  intro exit
  have ending : exit.code = (Session.run compiles o d input).code ∧
      exit.disk = (Session.run compiles o d input).disk := by
    simp only [exit, run, parsed, and_self]
  obtain ⟨code, disk⟩ := ending
  rw [code, disk]
  exact ⟨(Session.alike_run compiles o d input).kinds, Session.disk_run_of_not_agreed,
    fun here old new => Session.changed_run, Session.code_run_eq_zero_iff,
    Session.code_run_zero_or_one compiles o d input⟩

/- Of two files with an alias one is locked. The other is rewritten, and the exit code tells of
the one that is not. -/
theorem run_safe_locked :
    let settings :=
      "\x7b\"compilerOptions\": \x7b\"paths\": \x7b\"@/*\": [\"src/*\"]\x7d\x7d\x7d".toList
    let text := "import c from '@/c';".toList
    let d : Disk := ⟨[("src".toList, .folder [("a.ts".toList, .file (.text text)),
      ("b.ts".toList, .file (.text text) .reading)]),
        ("tsconfig.json".toList, .file (.text settings))], []⟩
    let o : Options :=
      ⟨none, Options.defaultTargets, Options.defaultExcludes, [], false, false, true⟩
    let compiles (_ : Text) := true
    let exit := run compiles ["-y".toList] none d []
    Options.ofArguments ["-y".toList] = .ok o ∧
      exit.disk.root.contentAt? ["src".toList, "b.ts".toList] = some (.text text) ∧
      (∃ plan, Session.Planned compiles o d plan ∧ ∃ p ∈ plan.files, ∃ t,
        d.locate p = .ok ["src".toList, "a.ts".toList] ∧ Content.text text = .text t ∧
          plan.table.found t ≠ [] ∧
            Content.text "import c from './c';".toList = .text (plan.table.change p t).content) ∧
      exit.code = 1 ∧
      ¬((∀ e, ¬Session.Fatal compiles o d [] e) ∧ ∀ p f, ¬Session.Failed compiles o d [] p f) := by
  intro settings text d o compiles exit
  have parsed : Options.ofArguments ["-y".toList] = .ok o := by rfl
  obtain ⟨-, -, changed, code, -⟩ := run_safe compiles ["-y".toList] none d [] parsed
  have content {here : Location} {t : Text}
      (h : (exit.disk.root.contentAt? here).bind Content.text? = some t) :
      exit.disk.root.contentAt? here = some (.text t) := by
    obtain ⟨c, held, hc⟩ := Option.bind_eq_some_iff.mp h
    rw [held, Content.text?_eq_some_iff.mp hc]
  have before : d.root.contentAt? ["src".toList, "a.ts".toList] = some (.text text) := by rfl
  have after : exit.disk.root.contentAt? ["src".toList, "a.ts".toList] =
      some (.text "import c from './c';".toList) := content (by decide +kernel)
  have kept : exit.disk.root.contentAt? ["src".toList, "b.ts".toList] = some (.text text) :=
    content (by decide +kernel)
  have other : Content.text "import c from './c';".toList ≠ .text text :=
    mt Content.text.inj (by decide)
  have one : exit.code = 1 := by decide +kernel
  refine ⟨parsed, kept, changed _ _ _ before after other, one, fun well => ?_⟩
  exact Nat.one_ne_zero (one.symm.trans (code.mpr well))

end CommandLine
end Unalias
