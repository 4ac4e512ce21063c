import FlatSheet.CommandLine.Run
import FlatSheet.Proofs.Compile.Stages

/-!
# What the commands do to a disk

Both commands read the sheet and its prelude, and fail alike when these are not to be had. What the
check does shows on its exit code and outputs only. A build that succeeds leaves the result in one
place, and one that fails leaves the disk as it was.
-/

namespace FlatSheet.CommandLine

/-- Bytes are decoded to the text that they encode. -/
theorem decode_eq_ok_iff {bytes : ByteArray} {text : String} :
    decode bytes = .ok text ↔ bytes = text.toUTF8 := by
  unfold decode String.fromUTF8?
  split
  · next found =>
    split at found
    · cases found
      constructor
      · intro h
        cases h
        rfl
      · rintro rfl
        rfl
    · cases found
  · next missing =>
    split at missing
    · cases missing
    · next invalid =>
      refine ⟨nofun, ?_⟩
      rintro rfl
      exact absurd text.isValidUTF8 invalid

namespace Disk

/-- A file with some text is on the disk. -/
def Holds (d : Disk) (path text : String) : Prop := d.contents path = .ok text.toUTF8

/-- What a build reports, and the disk after it. -/
def build (d : Disk) (input : String) (preludeFile output : Option String) (format : Format) :
    Report × Disk :=
  (Request.mk (.build output) input preludeFile format).run access d

/-- What a check reports, and the disk after it. -/
def check (d : Disk) (input : String) (preludeFile : Option String) (format : Format) :
    Report × Disk :=
  (Request.mk .check input preludeFile format).run access d

/-- A prelude is in a file that is named for it, or empty. -/
def Loads (d : Disk) (preludeFile : Option String) (p : Prelude) : Prop :=
  match preludeFile with
  | none => p = .empty
  | some path => ∃ document, d.Holds path document ∧ Prelude.ofJson path document = .ok p

/-- The sheet and the prelude are in the files of a request. -/
structure Supplies (d : Disk) (input : String) (preludeFile : Option String) (source : String)
    (p : Prelude) : Prop where
  sheet : d.Holds input source
  globals : d.Loads preludeFile p

/-- A result went to the standard output when no file is named for it, and else to this file; no other
file has changed. -/
def Received (d : Disk) (output : Option String) (css stdout : String) (after : Disk) : Prop :=
  match output with
  | none => stdout = css ∧ after = d
  | some path =>
    stdout = "" ∧ after.Holds path css ∧
      ∀ other, other ≠ path → after.contents other = d.contents other

variable (d : Disk)

/-- A file that is stored holds what was stored, and the other files stay as they were. -/
theorem received_store (path css : String) : d.Received (some path) css "" (d.store path css) :=
  ⟨rfl, if_pos rfl, fun _ other ↦ if_neg other⟩

theorem bind_decode_eq_ok_iff {path text : String} :
    (d.contents path).bind decode = .ok text ↔ d.Holds path text := by
  unfold Holds
  cases d.contents path with
  | error reason => exact ⟨nofun, nofun⟩
  | ok bytes => exact decode_eq_ok_iff.trans ⟨congrArg _, Except.ok.inj⟩

theorem ofFile_eq_ok_iff {path : String} {p : Prelude} :
    Prelude.ofFile path ((d.contents path).bind decode) = .ok p ↔
      ∃ document, d.Holds path document ∧ Prelude.ofJson path document = .ok p := by
  simp only [← bind_decode_eq_ok_iff]
  cases (d.contents path).bind decode with
  | error reason => simp [Prelude.ofFile]
  | ok document => simp [Prelude.ofFile]

/-- Reading a file leaves the disk as it was. -/
theorem readText_access (path : String) :
    access.readText path d = ((d.contents path).bind decode, d) := by
  unfold FileAccess.readText
  simp only [bind, StateT.bind, access]
  cases d.contents path <;> rfl

end Disk

namespace Report

theorem code_eq_zero_iff {r : Report} : r.code = 0 ↔ r.succeeded = true := by
  cases h : r.succeeded <;> simp [code, h]

theorem code_eq_one_iff {r : Report} : r.code = 1 ↔ r.succeeded = false := by
  cases h : r.succeeded <;> simp [code, h]

theorem succeeded_ofError (input : String) (format : Format) (e : CompileError) :
    (ofError input format e).succeeded = false := by
  cases e with
  | problems diagnostics => cases format <;> rfl
  | unreadable e => rfl
  | unfoldable e => rfl
  | badPrelude e => rfl

/-- Only problems in JSON are written on the standard output. -/
theorem stdout_ofError (input : String) (format : Format) (e : CompileError) :
    (ofError input format e).stdout = "" ∨
      format = .json ∧ ∃ diagnostics, e = .problems diagnostics ∧
        (ofError input format e).stdout =
          (Json.Layout.array (diagnostics.map diagnosticLayout)).toText ++ "\n" := by
  cases e with
  | problems diagnostics =>
    cases format with
    | text => exact .inl rfl
    | json => exact .inr ⟨rfl, diagnostics, rfl, rfl⟩
  | unreadable e => exact .inl rfl
  | unfoldable e => exact .inl rfl
  | badPrelude e => exact .inl rfl

end Report

namespace Request

/-- A check is the same run whatever writing a file would do. -/
theorem run_check_of_write {m : Type → Type} [Monad m] {r : Request} (command : r.command = .check)
    (read : String → m (Except String ByteArray))
    (write other : String → String → m (Except String Unit)) :
    r.run ⟨read, write⟩ = r.run ⟨read, other⟩ := by
  unfold run
  rw [command]
  rfl

variable (r : Request) (d : Disk)

/-- The prelude that is loaded is the one in the file, and loading leaves the disk as it was. -/
theorem exists_loadPrelude_access :
    ∃ result, r.loadPrelude Disk.access d = (result, d) ∧
      ∀ p, result = .ok p ↔ d.Loads r.preludeFile p := by
  unfold loadPrelude
  cases r.preludeFile with
  | none =>
    refine ⟨.ok .empty, rfl, fun p ↦ ?_⟩
    rw [Except.ok.injEq]
    exact eq_comm
  | some path =>
    refine ⟨Prelude.ofFile path ((d.contents path).bind decode), ?_, fun p ↦ d.ofFile_eq_ok_iff⟩
    simp only [bind, StateT.bind, Disk.readText_access]
    rfl

/-- What is read is what the disk supplies, and reading leaves the disk as it was. -/
theorem exists_prepare_access :
    ∃ result, r.prepare Disk.access d = (result, d) ∧
      ∀ source p, result = .ok (source, p) ↔ d.Supplies r.input r.preludeFile source p := by
  obtain ⟨loaded, load, loads⟩ := exists_loadPrelude_access r d
  unfold prepare
  simp only [bind, StateT.bind, Disk.readText_access]
  cases read : (d.contents r.input).bind decode with
  | error reason =>
    refine ⟨_, rfl, fun source p ↦ ⟨nofun, fun supplied ↦ ?_⟩⟩
    cases read.symm.trans (d.bind_decode_eq_ok_iff.mpr supplied.sheet)
  | ok text =>
    have sheet := d.bind_decode_eq_ok_iff.mp read
    simp only [StateT.bind, load]
    cases loaded with
    | error e =>
      refine ⟨_, rfl, fun source p ↦ ⟨nofun, fun supplied ↦ ?_⟩⟩
      cases (loads p).mpr supplied.globals
    | ok q =>
      refine ⟨_, rfl, fun source p ↦ ⟨?_, fun supplied ↦ ?_⟩⟩
      · intro same
        cases same
        exact ⟨sheet, (loads q).mp rfl⟩
      · cases read.symm.trans (d.bind_decode_eq_ok_iff.mpr supplied.sheet)
        cases (loads p).mpr supplied.globals
        rfl

/-- A run fails when there is nothing to work on, and else goes on with what there is. -/
theorem unsupplied_or_prepared :
    ((∀ source p, ¬ d.Supplies r.input r.preludeFile source p) ∧
        ∃ message, r.run Disk.access d = (.failure message, d)) ∨
      ∃ source p, d.Supplies r.input r.preludeFile source p ∧
        r.prepare Disk.access d = (.ok (source, p), d) := by
  obtain ⟨result, prepared, supplied⟩ := exists_prepare_access r d
  cases result with
  | error message =>
    refine .inl ⟨fun source p h ↦ ?_, message, ?_⟩
    · cases (supplied source p).mpr h
    · unfold run
      simp only [bind, StateT.bind, prepared]
      rfl
  | ok found => exact .inr ⟨found.1, found.2, (supplied _ _).mp rfl, prepared⟩

/-- Delivering fails where files cannot be written, and else stores the result. -/
theorem deliver_access (path css : String) :
    (d.refusal path ≠ none ∧ ∃ message, deliver Disk.access path css d = (.failure message, d)) ∨
      d.refusal path = none ∧ deliver Disk.access path css d = (.success "", d.store path css) := by
  unfold deliver
  simp only [bind, StateT.bind, Disk.access]
  cases d.refusal path with
  | some reason => exact .inl ⟨nofun, _, rfl⟩
  | none => exact .inr ⟨rfl, rfl⟩

end Request

/-- There is at most one sheet and one prelude in the files of a request. -/
theorem Disk.Supplies.unique {d : Disk} {input : String} {preludeFile : Option String}
    {source source' : String} {p p' : Prelude} (h : d.Supplies input preludeFile source p)
    (h' : d.Supplies input preludeFile source' p') : source = source' ∧ p = p' := by
  obtain ⟨result, -, supplied⟩ :=
    (Request.mk .check input preludeFile .text).exists_prepare_access d
  cases ((supplied source p).mpr h).symm.trans ((supplied source' p').mpr h')
  exact ⟨rfl, rfl⟩

/-! ### The two commands -/

section Commands

variable (d : Disk) (input : String) (preludeFile output : Option String) (format : Format)

/-- What a check does. -/
theorem check_cases :
    -- There is nothing to check,
    ((∀ source p, ¬ d.Supplies input preludeFile source p) ∧
        ∃ message, d.check input preludeFile format = (.failure message, d)) ∨
      -- or something is wrong with it, or nothing is.
      ∃ source p, d.Supplies input preludeFile source p ∧
        ((∃ e, check p source = .error e ∧
            d.check input preludeFile format = (.ofError input format e, d)) ∨
          ∃ s, check p source = .ok s ∧ d.check input preludeFile format = (.success "", d)) := by
  obtain unsupplied | ⟨source, p, supplied, prepared⟩ :=
    (Request.mk .check input preludeFile format).unsupplied_or_prepared d
  · exact .inl unsupplied
  · refine .inr ⟨source, p, supplied, ?_⟩
    unfold Disk.check Request.run
    simp only [bind, StateT.bind, prepared]
    cases check p source with
    | error e => exact .inl ⟨e, rfl, rfl⟩
    | ok s => exact .inr ⟨s, rfl, rfl⟩

/-- What a build does. -/
theorem build_cases :
    -- There is nothing to build,
    ((∀ source p, ¬ d.Supplies input preludeFile source p) ∧
        ∃ message, d.build input preludeFile output format = (.failure message, d)) ∨
      ∃ source p, d.Supplies input preludeFile source p ∧
        -- or it is not compiled,
        ((∃ e, compile p source = .error e ∧
            d.build input preludeFile output format = (.ofError input format e, d)) ∨
          ∃ css, compile p source = .ok css ∧
            -- or the result cannot be written, or it is.
            ((∃ path ∈ output, d.refusal path ≠ none ∧
                ∃ message, d.build input preludeFile output format = (.failure message, d)) ∨
              (∀ path ∈ output, d.refusal path = none) ∧
                ∃ stdout after, d.build input preludeFile output format = (.success stdout, after) ∧
                  d.Received output css stdout after)) := by
  obtain unsupplied | ⟨source, p, supplied, prepared⟩ :=
    (Request.mk (.build output) input preludeFile format).unsupplied_or_prepared d
  · exact .inl unsupplied
  · refine .inr ⟨source, p, supplied, ?_⟩
    unfold Disk.build Request.run
    simp only [bind, StateT.bind, prepared]
    cases compile p source with
    | error e => exact .inl ⟨e, rfl, rfl⟩
    | ok css =>
      refine .inr ⟨css, rfl, ?_⟩
      cases output with
      | none => exact .inr ⟨nofun, css, d, rfl, rfl, rfl⟩
      | some path =>
        obtain ⟨refused, message, failed⟩ | ⟨free, stored⟩ := Request.deliver_access d path css
        · exact .inl ⟨path, rfl, refused, message, failed⟩
        · refine .inr ⟨fun other named ↦ ?_, "", d.store path css, stored, d.received_store path css⟩
          cases named
          exact free

/-- A check succeeds exactly when what the disk supplies passes it. -/
theorem code_check_eq_zero_iff :
    (d.check input preludeFile format).1.code = 0 ↔
      ∃ source p s, d.Supplies input preludeFile source p ∧ check p source = .ok s := by
  rw [Report.code_eq_zero_iff]
  obtain ⟨missing, message, failed⟩ | ⟨source, p, supplied,
      ⟨e, wrong, failed⟩ | ⟨s, right, passed⟩⟩ := check_cases d input preludeFile format
  · rw [failed]
    exact ⟨nofun, fun ⟨source, p, s, supplied, _⟩ ↦ absurd supplied (missing source p)⟩
  · rw [failed, Report.succeeded_ofError]
    refine ⟨nofun, fun ⟨source', p', s, supplied', right⟩ ↦ ?_⟩
    obtain ⟨rfl, rfl⟩ := supplied.unique supplied'
    cases wrong.symm.trans right
  · rw [passed]
    exact ⟨fun _ ↦ ⟨source, p, s, supplied, right⟩, fun _ ↦ rfl⟩

/-- A check leaves the disk as it was. -/
theorem check_snd : (d.check input preludeFile format).2 = d := by
  obtain ⟨-, message, failed⟩ | ⟨source, p, -, ⟨e, -, failed⟩ | ⟨s, -, passed⟩⟩ :=
    check_cases d input preludeFile format
  · rw [failed]
  · rw [failed]
  · rw [passed]

/-- A build succeeds exactly when what the disk supplies is compiled and can be written. -/
theorem code_build_eq_zero_iff :
    (d.build input preludeFile output format).1.code = 0 ↔
      ∃ source p css, d.Supplies input preludeFile source p ∧ compile p source = .ok css ∧
        ∀ path ∈ output, d.refusal path = none := by
  rw [Report.code_eq_zero_iff]
  obtain ⟨missing, message, failed⟩ | ⟨source, p, supplied, ⟨e, wrong, failed⟩ | ⟨css, compiled,
      ⟨path, named, refused, message, failed⟩ | ⟨free, stdout, after, built, -⟩⟩⟩ :=
    build_cases d input preludeFile output format
  · rw [failed]
    exact ⟨nofun, fun ⟨source, p, css, supplied, _⟩ ↦ absurd supplied (missing source p)⟩
  · rw [failed, Report.succeeded_ofError]
    refine ⟨nofun, fun ⟨source', p', css, supplied', compiled, _⟩ ↦ ?_⟩
    obtain ⟨rfl, rfl⟩ := supplied.unique supplied'
    cases wrong.symm.trans compiled
  · rw [failed]
    exact ⟨nofun, fun ⟨_, _, _, _, _, free⟩ ↦ absurd (free path named) refused⟩
  · rw [built]
    exact ⟨fun _ ↦ ⟨source, p, css, supplied, compiled, free⟩, fun _ ↦ rfl⟩

/-- A build that succeeds puts the result where it belongs. -/
theorem received_of_code_build (h : (d.build input preludeFile output format).1.code = 0) :
    ∃ source p css, d.Supplies input preludeFile source p ∧ compile p source = .ok css ∧
      d.Received output css (d.build input preludeFile output format).1.stdout
        (d.build input preludeFile output format).2 := by
  rw [Report.code_eq_zero_iff] at h
  obtain ⟨-, message, failed⟩ | ⟨source, p, supplied, ⟨e, -, failed⟩ | ⟨css, compiled,
      ⟨path, -, -, message, failed⟩ | ⟨-, stdout, after, built, received⟩⟩⟩ :=
    build_cases d input preludeFile output format
  · rw [failed] at h
    cases h
  · rw [failed, Report.succeeded_ofError] at h
    cases h
  · rw [failed] at h
    cases h
  · rw [built]
    exact ⟨source, p, css, supplied, compiled, received⟩

/-- A build that fails leaves the disk as it was, and writes nothing on the standard output but problems
in JSON. -/
theorem silent_of_code_build (h : (d.build input preludeFile output format).1.code = 1) :
    (d.build input preludeFile output format).2 = d ∧
      ((d.build input preludeFile output format).1.stdout = "" ∨
        format = .json ∧ ∃ source p diagnostics, d.Supplies input preludeFile source p ∧
          compile p source = .error (.problems diagnostics) ∧
          (d.build input preludeFile output format).1.stdout =
            (Json.Layout.array (diagnostics.map diagnosticLayout)).toText ++ "\n") := by
  rw [Report.code_eq_one_iff] at h
  obtain ⟨-, message, failed⟩ | ⟨source, p, supplied, ⟨e, wrong, failed⟩ | ⟨css, -,
      ⟨path, -, -, message, failed⟩ | ⟨-, stdout, after, built, -⟩⟩⟩ :=
    build_cases d input preludeFile output format
  · rw [failed]
    exact ⟨rfl, .inl rfl⟩
  · rw [failed]
    refine ⟨rfl, ?_⟩
    obtain silent | ⟨json, diagnostics, rfl, written⟩ := Report.stdout_ofError input format e
    · exact .inl silent
    · exact .inr ⟨json, source, p, diagnostics, supplied, wrong, written⟩
  · rw [failed]
    exact ⟨rfl, .inl rfl⟩
  · rw [built] at h
    cases h

/-- The two commands on one disk. A build succeeds exactly when the files hold a sheet and a prelude, the
sheet is compiled, and the result can be written; the result is then in one place. A build that fails
leaves the disk as it was, and writes at most problems in JSON on the standard output. A check writes
no file, and succeeds when a build does; where only the build fails, the sheet cannot be folded or
the result not be written. -/
theorem build_and_check_agree (other : Format) :
    let built := d.build input preludeFile output format
    let checked := d.check input preludeFile other
    (built.1.code = 0 ∨ built.1.code = 1) ∧
      (built.1.code = 0 ↔
        ∃ source p css, d.Supplies input preludeFile source p ∧ compile p source = .ok css ∧
          ∀ path ∈ output, d.refusal path = none) ∧
      (built.1.code = 0 →
        ∃ source p css, d.Supplies input preludeFile source p ∧ compile p source = .ok css ∧
          d.Received output css built.1.stdout built.2) ∧
      (built.1.code = 1 → built.2 = d ∧
        (built.1.stdout = "" ∨
          format = .json ∧ ∃ source p diagnostics, d.Supplies input preludeFile source p ∧
            compile p source = .error (.problems diagnostics) ∧
            built.1.stdout =
              (Json.Layout.array (diagnostics.map diagnosticLayout)).toText ++ "\n")) ∧
      (checked.2 = d ∧ ∀ write,
        (Request.mk .check input preludeFile other).run ⟨Disk.access.read, write⟩ d = checked) ∧
      (built.1.code = 0 → checked.1.code = 0) ∧
      (checked.1.code = 0 → built.1.code = 1 →
        ∃ source p, d.Supplies input preludeFile source p ∧
          ((∃ e, compile p source = .error (.unfoldable e)) ∨
            (∃ css, compile p source = .ok css) ∧ ∃ path ∈ output, d.refusal path ≠ none)) := by
  intro built checked
  have builds : built.1.code = 0 ↔ _ := code_build_eq_zero_iff d input preludeFile output format
  have checks : checked.1.code = 0 ↔ _ := code_check_eq_zero_iff d input preludeFile other
  refine ⟨?_, builds, received_of_code_build d input preludeFile output format,
    silent_of_code_build d input preludeFile output format,
    ⟨check_snd d input preludeFile other, fun write ↦ ?_⟩, ?_, ?_⟩
  · rw [Report.code_eq_zero_iff, Report.code_eq_one_iff]
    cases built.1.succeeded with
    | true => exact .inl rfl
    | false => exact .inr rfl
  · exact congrFun (Request.run_check_of_write rfl _ write _) d
  · rw [builds, checks]
    rintro ⟨source, p, css, supplied, compiled, -⟩
    obtain ⟨s, flat, right, -⟩ := compile_eq_ok_iff.mp compiled
    exact ⟨source, p, s, supplied, right⟩
  · intro passed failed
    obtain ⟨source, p, s, supplied, right⟩ := checks.mp passed
    refine ⟨source, p, supplied, ?_⟩
    cases compiled : compile p source with
    | error e =>
      obtain ⟨error, rfl⟩ := exists_unfoldable_of_check right compiled
      exact .inl ⟨error, rfl⟩
    | ok css =>
      refine .inr ⟨⟨css, rfl⟩, ?_⟩
      by_cases refused : ∃ path ∈ output, d.refusal path ≠ none
      · exact refused
      · -- A build that could write everywhere would have succeeded.
        have free : ∀ path ∈ output, d.refusal path = none := by
          intro path named
          by_cases free : d.refusal path = none
          · exact free
          · exact absurd ⟨path, named, free⟩ refused
        have succeeded := builds.mpr ⟨source, p, css, supplied, compiled, free⟩
        rw [failed] at succeeded
        exact absurd succeeded (by decide)

/-- A sheet that is compiled into one file is refused by another; it passes the check all the same. -/
theorem build_and_check_agree_at_refusal :
    let d : Disk :=
      ⟨fun path ↦ if path = "in.icss" then .ok "a\x7bwidth:1px;\x7d".toUTF8 else .error "No such file",
        fun path ↦ if path = "locked.css" then some "Permission denied" else none⟩
    (d.build "in.icss" none (some "out.css") .text).1.code = 0 ∧
      (d.build "in.icss" none (some "out.css") .text).2.Holds "out.css" "a\x7b\n  width: 1px;\n\x7d\n" ∧
      (d.build "in.icss" none (some "locked.css") .json).1.code = 1 ∧
      (d.build "in.icss" none (some "locked.css") .json).2 = d ∧
      (d.check "in.icss" none .text).1.code = 0 := by
  intro d
  have supplied : d.Supplies "in.icss" none "a\x7bwidth:1px;\x7d" .empty := ⟨rfl, rfl⟩
  have compiled : compile .empty "a\x7bwidth:1px;\x7d" = .ok "a\x7b\n  width: 1px;\n\x7d\n" := by
    with_unfolding_all rfl
  obtain ⟨-, builds, receives, -, -, passes, -⟩ :=
    build_and_check_agree d "in.icss" none (some "out.css") .text .text
  obtain ⟨codes, locked, -, silent, -⟩ :=
    build_and_check_agree d "in.icss" none (some "locked.css") .json .text
  have free : ∀ path ∈ some "out.css", d.refusal path = none := by
    rintro path ⟨⟩
    rfl
  have built := builds.mpr ⟨_, _, _, supplied, compiled, free⟩
  have failed : (d.build "in.icss" none (some "locked.css") .json).1.code = 1 := by
    refine codes.resolve_left fun succeeded ↦ ?_
    obtain ⟨_, _, _, _, _, free⟩ := locked.mp succeeded
    cases free "locked.css" rfl
  obtain ⟨source, p, css, supplied', compiled', -, written, -⟩ := receives built
  obtain ⟨rfl, rfl⟩ := supplied.unique supplied'
  cases compiled.symm.trans compiled'
  exact ⟨built, written, failed, (silent failed).1, passes built⟩

end Commands

end FlatSheet.CommandLine
