import Mathlib
import ClassMetrics.CommandLine.Outcome
import ClassMetrics.Proofs.Agreement
import ClassMetrics.Proofs.ArgumentReading
import ClassMetrics.Proofs.NameOrder
import ClassMetrics.Proofs.StoredFiles

/-!
What a run of the program leaves behind. All that can fail comes before the first effect, except
for the writing of the report, which may fail without harm to the run. Main statement: a run that
fails changes no file and prints nothing, and one that analyses its input delivers the report on it,
which depends on nothing but the input.
-/

namespace ClassMetrics

namespace FileSystem

theorem eq_of_components {path name : String} (h : components path = [name]) : path = name := by
  obtain ⟨part, hsplit, rfl⟩ := List.map_eq_singleton_iff.1 h
  have hjoined : ['/'].intercalate (path.toList.splitOn '/') = path.toList :=
    List.intercalate_splitOn '/'
  rw [hsplit, List.intercalate_singleton] at hjoined
  rw [hjoined, String.ofList_toList]

end FileSystem

namespace CommandLine

/-- Other spellings of a hyphen name no file. -/
theorem eq_of_isHyphen {files : FileSystem} {path : String} {place : Location}
    (h : isHyphen path = true) (hfile : files.NamesFile path place) : path = "-" := by
  unfold isHyphen at h
  split at h
  · next rest hnames =>
      apply FileSystem.eq_of_components
      rw [hnames]
      rcases List.eq_nil_or_concat rest with rfl | ⟨front, last, rfl⟩
      · rfl
      · have hlast : last = "" ∨ last = "." := by simpa using List.all_eq_true.1 h last (by simp)
        have hend : (FileSystem.components path).getLast? = some last := by
          rw [hnames, List.concat_eq_append, List.getLast?_cons]
          simp
        rcases hlast with rfl | rfl
        · exact absurd hend hfile.closed
        · exact absurd hend hfile.last_ne_dot
  · cases h

theorem encode_nothing : Utf8.encode "" = [] := by
  cbv

namespace Response

variable (response : Response) (files : FileSystem)

theorem deliver_exit : (response.deliver files).exit = response.exit := by
  unfold deliver
  split <;> rfl

variable {response}

theorem deliver_of_no_report (h : response.report? = none) :
    (response.deliver files).files = files ∧
      (response.deliver files).stdout = Utf8.encode response.stdout := by
  simp only [deliver, h, and_self]

theorem deliver_of_report {path report : String} (h : response.report? = some (path, report)) :
    (response.deliver files).files = (files.write path (Utf8.encode report)).files ∧
      (response.deliver files).stdout = Utf8.encode response.stdout ++
        (files.write path (Utf8.encode report)).sentTo .output := by
  simp only [deliver, h, and_self]

/-- The run ends with a failure, before it has printed or written anything. -/
structure Fails (response : Response) : Prop where
  exit : response.exit ≠ 0
  stdout : response.stdout = ""
  report : response.report? = none

theorem fails_failed (fault : RunFault) (events : List Log.Event) : (failed fault events).Fails :=
  ⟨Nat.one_ne_zero, rfl, rfl⟩

end Response

section

variable {Url : Type}

/-- The report on what is found under a path, if the analysis of it gets to its end. -/
def reportOn? (platform : Platform Url) (files : FileSystem) (archive : String) : Option String :=
  match (Analysis.run platform.archives archive (files.view archive)).result with
  | .ok findings => some (Report.render findings.summary)
  | .error _ => none

/-- If there is a collector, its address can be read and spans can be sent there. -/
def Options.Connects (platform : Platform Url) (options : Options) : Prop :=
  ∀ text, options.collector? = some text →
    ∃ address, Endpoint.tracesAddress platform.urls text = .ok address ∧
      platform.exporter address = .ok ()

end

def reportBytes (report : String) : Bytes :=
  Utf8.encode (report ++ "\n")

theorem reportBytes_ne_nil (report : String) : reportBytes report ≠ [] := by
  rw [reportBytes, Utf8.encode_eq_flatMap, String.toList_append, List.flatMap_append]
  exact List.append_ne_nil_of_right_ne_nil _ (by decide)

/-- What is printed of a report: all of it, or nothing if the arguments ask for quiet. -/
def printed (arguments : List String) (report : String) : Bytes :=
  if "--quiet" ∈ optionPart arguments then [] else reportBytes report

/-- A report is delivered as arguments ask for it. It is printed unless they ask for quiet. A file
that they name as the output holds what it takes of the report, and all else is as before; if they
name none, or a hyphen, no file is changed. A device that they name as the output changes no file
either, but what it takes may go where the report is printed. -/
structure Delivers (before : FileSystem) (arguments : List String) (output report : String)
    (seen : Appearance) : Prop where
  named : ∀ path, NamesOutput arguments path ↔ path = output
  kept : output = "-" ∨ (∀ place, ¬before.NamesFile output place) →
    seen.files = before ∧ seen.stdout = printed arguments report
  stored : ∀ place, output ≠ "-" → before.NamesFile output place → ¬before.IsDevice place →
    before.Stored seen.files output place (before.taken place (reportBytes report)) ∧
      seen.stdout = printed arguments report
  streamed : ∀ place stream? content, output ≠ "-" → before.NamesFile output place →
    before.find? place = some (.device stream? content) →
    seen.files = before ∧
      seen.stdout = printed arguments report ++
        if stream? = some .output then before.taken place (reportBytes report) else []

section Responding

variable {Url : Type} {platform : Platform Url} {files : FileSystem} {options : Options}
  {report : String}

/-- There is no report on what is not there. -/
theorem exists_view_of_reportOn? {archive : String}
    (h : reportOn? platform files archive = some report) :
    ∃ tree, files.view archive = .ok tree := by
  cases hview : files.view archive with
  | ok tree => exact ⟨tree, rfl⟩
  | error fault => simp [reportOn?, hview, Analysis.run, Listing.ofInput, ScanState.scan] at h

theorem telemetryFault?_eq_none_iff :
    options.telemetryFault? platform = none ↔ options.Connects platform := by
  unfold Options.telemetryFault? Options.Connects
  cases options.collector? with
  | none => simp
  | some text =>
      cases haddress : Endpoint.tracesAddress platform.urls text with
      | error cause => simp [haddress]
      | ok address => cases hexporter : platform.exporter address <;> simp [haddress, hexporter]

theorem respond_of_reportOn? (hconnects : options.Connects platform)
    (h : reportOn? platform files options.archive = some report) (timings : Timings) :
    let response := options.respond platform (files.view options.archive) timings
    response.exit = 0 ∧ response.stdout = (if options.quiet then "" else report ++ "\n") ∧
      response.report? =
        if isHyphen options.output then none else some (options.output, report ++ "\n") := by
  obtain ⟨tree, hview⟩ := exists_view_of_reportOn? h
  unfold reportOn? at h
  split at h
  · next findings hresult =>
      obtain rfl := Option.some.inj h
      rw [hview] at hresult
      simp only [Options.respond, telemetryFault?_eq_none_iff.2 hconnects, Options.analyze, hview,
        Options.conclude, hresult, reportText, and_self]
  · cases h

theorem respond_fails
    (h : ¬(options.Connects platform ∧ (reportOn? platform files options.archive).isSome))
    (timings : Timings) :
    (options.respond platform (files.view options.archive) timings).Fails := by
  rw [Options.respond]
  cases htelemetry : options.telemetryFault? platform with
  | some fault => exact Response.fails_failed fault []
  | none =>
      have hnone : ¬(reportOn? platform files options.archive).isSome :=
        fun hsome => h ⟨telemetryFault?_eq_none_iff.1 htelemetry, hsome⟩
      unfold reportOn? at hnone
      cases hview : files.view options.archive with
      | error fault => exact ⟨Nat.one_ne_zero, rfl, rfl⟩
      | ok tree =>
          rw [hview] at hnone
          simp only [Options.analyze, Options.conclude]
          split at hnone
          · simp at hnone
          · next fault hresult =>
              rw [hresult]
              exact ⟨Nat.one_ne_zero, rfl, rfl⟩

variable {arguments : List String}

theorem response_of_analyze (platform : Platform Url) (files : FileSystem)
    (harguments : Command.ofArguments arguments = .ok (.analyze options)) (timings : Timings) :
    response platform files arguments timings =
      options.respond platform (files.view options.archive) timings := by
  simp only [response, harguments]

/-- What a run that analyses its input comes to. -/
theorem delivers_of_reportOn?
    (harguments : Command.ofArguments arguments = .ok (.analyze options))
    (hconnects : options.Connects platform)
    (h : reportOn? platform files options.archive = some report) (setting? : Option String)
    (timings : Timings) :
    Delivers files arguments options.output report
      (appear platform files arguments setting? timings) := by
  obtain ⟨-, hstdout, hreport⟩ := respond_of_reportOn? hconnects h timings
  rw [← response_of_analyze platform files harguments timings] at hstdout hreport
  have hprinted : Utf8.encode (response platform files arguments timings).stdout =
      printed arguments report := by
    rw [hstdout, apply_ite Utf8.encode]
    exact if_congr (Command.quiet_iff_mem harguments) encode_nothing rfl
  have hwritten : ∀ place, options.output ≠ "-" → files.NamesFile options.output place →
      (response platform files arguments timings).report? =
        some (options.output, report ++ "\n") := by
    intro place hother hfile
    rw [hreport, if_neg (mt (eq_of_isHyphen · hfile) hother)]
  simp only [appear, run]
  constructor
  case named => exact fun path => Command.namesOutput_iff harguments
  case kept =>
    intro hkept
    by_cases hhyphen : isHyphen options.output = true
    · rw [if_pos hhyphen] at hreport
      obtain ⟨hfiles, hbytes⟩ := Response.deliver_of_no_report files hreport
      exact ⟨hfiles, hbytes.trans hprinted⟩
    · have hunnamed := hkept.resolve_left fun hsame => hhyphen (by rw [hsame]; rfl)
      rw [if_neg hhyphen] at hreport
      obtain ⟨hfiles, hbytes⟩ := Response.deliver_of_report files hreport
      obtain ⟨fault, hwrite⟩ := FileSystem.write_of_unnamed hunnamed
      rw [hfiles, hbytes, hwrite, hprinted]
      exact ⟨rfl, List.append_nil _⟩
  case stored =>
    intro place hother hfile hdevice
    obtain ⟨hfiles, hbytes⟩ := Response.deliver_of_report files (hwritten place hother hfile)
    obtain ⟨hput, hstreamed⟩ := hfile.write_file hdevice (Utf8.encode (report ++ "\n"))
    rw [hfiles, hbytes, hput, FileSystem.Written.sentTo, hstreamed, hprinted]
    exact ⟨hfile.stored_put hdevice _, List.append_nil _⟩
  case streamed =>
    intro place stream? content hother hfile hdevice
    obtain ⟨hfiles, hbytes⟩ := Response.deliver_of_report files (hwritten place hother hfile)
    obtain ⟨hsame, hstreamed⟩ := hfile.write_device hdevice (Utf8.encode (report ++ "\n"))
    rw [hfiles, hbytes, hsame, FileSystem.Written.sentTo, hstreamed, hprinted]
    refine ⟨rfl, congrArg (printed arguments report ++ ·) ?_⟩
    cases stream? with
    | none => rfl
    | some stream => simp [reportBytes]

theorem appear_exit_eq_zero_iff (platform : Platform Url) (files : FileSystem)
    (harguments : Command.ofArguments arguments = .ok (.analyze options))
    (setting? : Option String) (timings : Timings) :
    (appear platform files arguments setting? timings).exit = 0 ↔
      options.Connects platform ∧ (reportOn? platform files options.archive).isSome := by
  rw [appear, run, Response.deliver_exit, response_of_analyze platform files harguments]
  by_cases h : options.Connects platform ∧ (reportOn? platform files options.archive).isSome
  · obtain ⟨report, hreport⟩ := Option.isSome_iff_exists.1 h.2
    exact iff_of_true (respond_of_reportOn? h.1 hreport timings).1 h
  · exact iff_of_false (respond_fails h timings).exit h

/-- Where there is a report and spans can be sent, the run succeeds and delivers the report. -/
theorem exists_delivers (harguments : Command.ofArguments arguments = .ok (.analyze options))
    (hconnects : options.Connects platform)
    (h : (reportOn? platform files options.archive).isSome) (setting? : Option String)
    (timings : Timings) :
    (appear platform files arguments setting? timings).exit = 0 ∧
      ∃ report, reportOn? platform files options.archive = some report ∧
        Delivers files arguments options.output report
          (appear platform files arguments setting? timings) := by
  obtain ⟨report, hreport⟩ := Option.isSome_iff_exists.1 h
  exact ⟨(appear_exit_eq_zero_iff platform files harguments setting? timings).2 ⟨hconnects, h⟩,
    report, hreport, delivers_of_reportOn? harguments hconnects hreport setting? timings⟩

/-- A response to a failure prints and writes nothing. -/
theorem fails_of_exit_ne_zero {timings : Timings}
    (h : (response platform files arguments timings).exit ≠ 0) :
    (response platform files arguments timings).Fails := by
  cases harguments : Command.ofArguments arguments with
  | error fault =>
      simp only [response, harguments]
      exact ⟨Nat.succ_ne_zero 1, rfl, rfl⟩
  | ok command =>
      cases command with
      | version => simp [response, harguments, Response.printing] at h
      | help => simp [response, harguments, Response.printing] at h
      | analyze options =>
          rw [response_of_analyze platform files harguments] at h ⊢
          apply respond_fails
          rintro ⟨hconnects, hsome⟩
          obtain ⟨report, hreport⟩ := Option.isSome_iff_exists.1 hsome
          exact h (respond_of_reportOn? hconnects hreport timings).1

end Responding

/-- A run that fails leaves everything as it was. One that is to analyse its input fails only if
spans cannot be sent to the collector or if there is no report; if it does not, the report is
delivered, and so it is by every other run on the same input, whatever else the arguments and
settings are. -/
theorem appear_all_or_nothing {Url : Type} (platform : Platform Url) (files : FileSystem)
    (arguments : List String) (setting? : Option String) (timings : Timings) :
    let seen := appear platform files arguments setting? timings
    (seen.exit ≠ 0 → seen.files = files ∧ seen.stdout = []) ∧
      ∀ options, Command.ofArguments arguments = .ok (.analyze options) →
        (seen.exit = 0 ↔
          options.Connects platform ∧ (reportOn? platform files options.archive).isSome) ∧
        (seen.exit = 0 → ∃ report, reportOn? platform files options.archive = some report ∧
          Delivers files arguments options.output report seen ∧
          ∀ others otherSetting? otherTimings otherOptions,
            Command.ofArguments others = .ok (.analyze otherOptions) →
            otherOptions.archive = options.archive →
            (appear platform files others otherSetting? otherTimings).exit = 0 →
            Delivers files others otherOptions.output report
              (appear platform files others otherSetting? otherTimings)) := by
  intro seen
  constructor
  · intro hexit
    have hfailed : (response platform files arguments timings).exit ≠ 0 := by
      rwa [← Response.deliver_exit _ files]
    obtain ⟨-, hstdout, hreport⟩ := fails_of_exit_ne_zero hfailed
    obtain ⟨hfiles, hbytes⟩ := Response.deliver_of_no_report files hreport
    exact ⟨hfiles, hbytes.trans (by rw [hstdout, encode_nothing])⟩
  · intro options harguments
    have hexit := appear_exit_eq_zero_iff platform files harguments setting? timings
    refine ⟨hexit, fun hzero => ?_⟩
    obtain ⟨hconnects, hsome⟩ := hexit.1 hzero
    obtain ⟨-, report, hreport, hseen⟩ :=
      exists_delivers harguments hconnects hsome setting? timings
    refine ⟨report, hreport, hseen, ?_⟩
    intro others otherSetting? otherTimings otherOptions hothers hsame hend
    have hother :=
      (appear_exit_eq_zero_iff platform files hothers otherSetting? otherTimings).1 hend
    rw [← hsame] at hreport
    exact delivers_of_reportOn? hothers hother.1 hreport otherSetting? otherTimings

/-! ## Runs on a class file -/

/-- A working directory with a class file below it, in a system where a device leads to standard
output and a link to where a report may come to be. -/
def classSystem : FileSystem :=
  FileSystem.ofDirectory ["work"]
    |>.add ["work", "input", "A.class"] (.file (ClassFile.twoCodesFile [0xb1] [0xb1]))
    |>.add ["work", "latest"] (.link "../reports/latest.json")
    |>.add ["reports"] .directory
    |>.add ["dev", "stdout"] (.device (some .output) [])

/-- The same, with an earlier report and no room for a new one. -/
def fullSystem : FileSystem :=
  { classSystem.add ["work", "metrics.json"] (.file [123, 125]) with
    shortfall? := fun _ _ => some (0, ⟨"No space left on device", 28⟩) }

theorem reportOn?_input_isSome {files : FileSystem}
    (hlisting : Listing.ofInput Archive.zipReader "input" (files.view "input") =
      [.ok ⟨"input/A.class", ClassFile.twoCodesFile [0xb1] [0xb1]⟩]) :
    (reportOn? .standalone files "input").isSome = true := by
  have hdecode : (ClassFile.decodeWith ModifiedUtf8.decode
      (ClassFile.twoCodesFile [0xb1] [0xb1])).result =
        .ok ⟨⟨"A", none, .empty, [⟨"f", "()"⟩]⟩, 0, [⟨"f", "()V", 0, [⟨0, 0xb1, .other⟩]⟩]⟩ := by
    cbv
  have hlisting : Listing.ofInput Platform.standalone.archives "input" (files.view "input") = _ :=
    hlisting
  simp only [reportOn?, Analysis.run, hlisting, ScanState.scan, hdecode, Option.isSome_some]

theorem connects_of_no_collector {Url : Type} {platform : Platform Url} {options : Options}
    (h : options.collector? = none) : options.Connects platform := by
  intro text htext
  rw [h] at htext
  cases htext

/-- The report comes to be behind a link that leads out of the working directory, and a second run
prints the same report. -/
theorem appear_classSystem :
    let arguments := ["--quiet", "--output", "latest", "input"]
    let others := ["input", "--timing", "--output=-"]
    let seen := appear .standalone classSystem arguments (some "debug") .zero
    seen.exit = 0 ∧ ∃ report, reportOn? .standalone classSystem "input" = some report ∧
      Delivers classSystem arguments "latest" report seen ∧
      Delivers classSystem others "-" report
        (appear .standalone classSystem others none .zero) := by
  intro arguments others seen
  have harguments : Command.ofArguments arguments =
      .ok (.analyze ⟨"input", "latest", true, false, none⟩) := by cbv
  have hothers : Command.ofArguments others =
      .ok (.analyze ⟨"input", "-", false, true, none⟩) := by cbv
  obtain ⟨-, hrun⟩ := appear_all_or_nothing .standalone classSystem arguments (some "debug") .zero
  obtain ⟨-, hother⟩ := appear_all_or_nothing .standalone classSystem others none .zero
  have hsome : (reportOn? .standalone classSystem "input").isSome = true :=
    reportOn?_input_isSome (by cbv)
  have hzero : seen.exit = 0 :=
    (hrun _ harguments).1.2 ⟨connects_of_no_collector rfl, hsome⟩
  have hotherZero := (hother _ hothers).1.2 ⟨connects_of_no_collector rfl, hsome⟩
  obtain ⟨report, hreport, hseen, hsame⟩ := (hrun _ harguments).2 hzero
  exact ⟨hzero, report, hreport, hseen, hsame others none .zero _ hothers rfl hotherZero⟩

/-- A quiet run prints its report if a device that leads to standard output is named as the output,
and a run that cannot write all of its report leaves neither the report nor the file as it was. -/
theorem appear_streams_and_truncates :
    let streamed := appear .standalone classSystem
      ["--quiet", "--output", "/dev/stdout", "input"] none .zero
    let truncated := appear .standalone fullSystem ["--quiet", "input"] none .zero
    (streamed.exit = 0 ∧ streamed.stdout ≠ []) ∧
      truncated.exit = 0 ∧ fullSystem.find? ["work", "metrics.json"] = some (.file [123, 125]) ∧
        truncated.files.find? ["work", "metrics.json"] = some (.file []) := by
  intro streamed truncated
  constructor
  · have harguments : Command.ofArguments ["--quiet", "--output", "/dev/stdout", "input"] =
        .ok (.analyze ⟨"input", "/dev/stdout", true, false, none⟩) := by cbv
    have hsome : (reportOn? .standalone classSystem "input").isSome = true :=
      reportOn?_input_isSome (by cbv)
    have hnamed : classSystem.NamesFile "/dev/stdout" ["dev", "stdout"] :=
      FileSystem.openForWriting_eq_ok_iff.1 (by cbv)
    obtain ⟨hexit, report, -, hdelivers⟩ :=
      exists_delivers harguments (connects_of_no_collector rfl) hsome none .zero
    obtain ⟨-, hstdout⟩ := hdelivers.streamed _ _ _ (by decide) hnamed rfl
    refine ⟨hexit, ?_⟩
    rw [hstdout]
    exact reportBytes_ne_nil report
  · have harguments : Command.ofArguments ["--quiet", "input"] =
        .ok (.analyze ⟨"input", "metrics.json", true, false, none⟩) := by cbv
    have hsome : (reportOn? .standalone fullSystem "input").isSome = true :=
      reportOn?_input_isSome (by cbv)
    have hnamed : fullSystem.NamesFile "metrics.json" ["work", "metrics.json"] :=
      FileSystem.openForWriting_eq_ok_iff.1 (by cbv)
    have hfile : fullSystem.find? ["work", "metrics.json"] = some (.file [123, 125]) := by cbv
    have hdevice : ¬fullSystem.IsDevice ["work", "metrics.json"] := by
      simp [FileSystem.IsDevice, hfile]
    obtain ⟨hexit, report, -, hdelivers⟩ :=
      exists_delivers harguments (connects_of_no_collector rfl) hsome none .zero
    obtain ⟨hstored, -⟩ := hdelivers.stored _ (by decide) hnamed hdevice
    exact ⟨hexit, hfile, hstored.found⟩

end CommandLine

end ClassMetrics
