/-
# CimBroker.Proofs.ConfigLoading — which configurations a command line can load

The command line can name a configuration file and give a server and a namespace in place of the
file's own.  What comes of it is judged, and so is the file before, by itself.  A file has to be
valid therefore, whatever the command line gives: what a file says can be replaced, but not mended
(`CommandLine.config_is_judged_twice`).  The files that are refused although nothing would be wrong
with what the command line makes of them are those with one of three defects
(`CommandLine.invalid_base_iff`).

The defects are listed once, in the order in which they are looked for (`SessionConfig.Defect`), and
`SessionConfig.fault?_eq` says that the fault that is reported is the first of them.
`CommandLine.account_without_server_is_refused` is a file that a command line would mend, if files
were not judged by themselves.  What a file has to look like to say a configuration at all is left
to `CimBroker.Proofs.ConfigRoundTrip`.
-/
import CimBroker.CommandLine.Program
import CimBroker.Proofs.Frame

namespace CimBroker

namespace SessionConfig

/-! ## Defects -/

/-- What can be wrong with a configuration. -/
inductive Defect where
  | emptyNamespace
  | emptyServer
  | emptyUser
  | localCredentials
  | noTime
  deriving DecidableEq, Repr

namespace Defect

/-- Every defect, in the order in which they are looked for. -/
def all : List Defect := [emptyNamespace, emptyServer, emptyUser, localCredentials, noTime]

theorem mem_all (f : Defect) : f ∈ all := by
  cases f <;> decide

/-- How the defect is reported. -/
def text : Defect → String
  | emptyNamespace => "namespace cannot be empty"
  | emptyServer => "server cannot be empty; omit it for the local machine"
  | emptyUser => "credentials require a user name"
  | localCredentials => "credentials cannot be used for local connections"
  | noTime => "job_timeout_secs must be at least 1"

/-- The configuration has the defect. -/
def In (c : SessionConfig) : Defect → Prop
  | emptyNamespace => c.namespaceName = ""
  | emptyServer => c.server = some ""
  | emptyUser => c.credentials.map Credentials.user = some ""
  | localCredentials => c.credentials.isSome ∧ c.server = none
  | noTime => c.timeoutSeconds = some 0

instance (c : SessionConfig) : (f : Defect) → Decidable (f.In c)
  | emptyNamespace => inferInstanceAs (Decidable (c.namespaceName = ""))
  | emptyServer => inferInstanceAs (Decidable (c.server = some ""))
  | emptyUser => inferInstanceAs (Decidable (c.credentials.map Credentials.user = some ""))
  | localCredentials => inferInstanceAs (Decidable (c.credentials.isSome ∧ c.server = none))
  | noTime => inferInstanceAs (Decidable (c.timeoutSeconds = some 0))

end Defect

/-- A configuration without defects. -/
def Valid (c : SessionConfig) : Prop := ∀ f : Defect, ¬ f.In c

/-- The configuration has the defect, and none of those before it. -/
def Reports (c : SessionConfig) (f : Defect) : Prop :=
  f.In c ∧ ∃ before after, Defect.all = before ++ f :: after ∧ ∀ g ∈ before, ¬ g.In c

/-- The fault that is found in a configuration is its first defect. -/
theorem fault?_eq (c : SessionConfig) :
    c.fault? = (Defect.all.find? fun f => f.In c).map Defect.text := by
  unfold fault?
  by_cases hname : c.namespaceName = ""
  · simp [Defect.all, Defect.In, hname, Defect.text]
  by_cases hserver : c.server = some ""
  · simp [Defect.all, Defect.In, hname, hserver, Defect.text]
  by_cases huser : c.credentials.map Credentials.user = some ""
  · simp [Defect.all, Defect.In, hname, hserver, huser, Defect.text]
  by_cases hlocal : c.credentials.isSome ∧ c.server = none
  · simp [Defect.all, Defect.In, hname, huser, hlocal, Defect.text]
  by_cases htime : c.timeoutSeconds = some 0
  · simp [Defect.all, Defect.In, hname, hserver, huser, hlocal, htime, Defect.text]
  · simp [Defect.all, Defect.In, hname, hserver, huser, hlocal, htime]

theorem reports_iff {c : SessionConfig} {f : Defect} :
    c.Reports f ↔ Defect.all.find? (fun f => f.In c) = some f := by
  simp [Reports, List.find?_eq_some_iff_append]

theorem valid_iff {c : SessionConfig} :
    c.Valid ↔ Defect.all.find? (fun f => f.In c) = none := by
  simp [Valid, Defect.mem_all]

theorem valid_or_reports (c : SessionConfig) : c.Valid ∨ ∃ f, c.Reports f := by
  cases hfound : Defect.all.find? fun f => f.In c with
  | none => exact .inl (valid_iff.mpr hfound)
  | some f => exact .inr ⟨f, reports_iff.mpr hfound⟩

/-- Judging a configuration succeeds if it is valid, -/
theorem validate_of_valid {c : SessionConfig} (h : c.Valid) : c.validate = .ok () := by
  rw [validate, fault?_eq, valid_iff.mp h]
  rfl

/-- and fails with its first defect if not. -/
theorem validate_of_reports {c : SessionConfig} {f : Defect} (h : c.Reports f) :
    c.validate = .error (.config f.text) := by
  rw [validate, fault?_eq, reports_iff.mp h]
  rfl

theorem validate_eq_ok_iff {c : SessionConfig} : c.validate = .ok () ↔ c.Valid := by
  constructor
  · intro hok
    rcases c.valid_or_reports with hvalid | ⟨f, hf⟩
    · exact hvalid
    · rw [validate_of_reports hf] at hok
      cases hok
  · exact validate_of_valid

theorem standard_valid : standard.Valid := by
  intro f
  cases f <;> decide

/-- A configuration that is read from a file is judged. -/
theorem run_ofFile {σ : Type} {files : Files σ} {path text : String} {s s' : σ}
    {c : SessionConfig} (hread : (files.read path).run s = (.ok text, s'))
    (htext : (Json.ofText? text).bind ofJson? = some c) :
    (ofFile files path).run s = (c.validate.map fun _ => c, s') := by
  unfold ofFile
  rw [Action.run_bind_of_ok hread, Action.run_ofExcept, ofText, htext]
  dsimp only
  cases c.validate <;> rfl

end SessionConfig

namespace CommandLine

variable {σ : Type}

open SessionConfig (Defect)

/-! ## Loading -/

/-- The configuration with the server and the namespace that a command line gives. -/
def Settings.over (settings : Settings) (c : SessionConfig) : SessionConfig :=
  { c with
    server := settings.server <|> c.server
    namespaceName := settings.namespaceName.getD c.namespaceName }

/-- The configuration that a command line starts from: that of its file, if it names one that can be
read and says a configuration, and the standard one if it names none. -/
inductive StartsFrom (files : Files σ) (settings : Settings) (s : σ) : SessionConfig → σ → Prop
  | standard (h : settings.config = none) : StartsFrom files settings s .standard s
  | file {path text : String} {base : SessionConfig} {s' : σ} (hpath : settings.config = some path)
      (hread : (files.read path).run s = (.ok text, s'))
      (htext : (Json.ofText? text).bind SessionConfig.ofJson? = some base) :
      StartsFrom files settings s base s'

variable {files : Files σ} {settings : Settings} {s s' : σ} {base : SessionConfig}

/-- What is loaded is judged before and after the command line has its say. -/
theorem StartsFrom.run_loadConfig (h : StartsFrom files settings s base s') :
    (loadConfig files settings).run s =
      (base.validate.bind fun _ => (settings.over base).validate.map fun _ => settings.over base,
        s') := by
  have hjudged (b : SessionConfig) (s : σ) :
      (do
        Action.ofExcept (settings.over b).validate
        return settings.over b : Action σ SessionConfig).run s =
          ((settings.over b).validate.map fun _ => settings.over b, s) := by
    rw [Action.run_bind, Action.run_ofExcept]
    cases (settings.over b).validate <;> rfl
  cases h with
  | standard hnone =>
    unfold loadConfig
    rw [hnone, SessionConfig.validate_of_valid SessionConfig.standard_valid]
    exact hjudged _ s
  | @file path text _ _ hpath hread htext =>
    have hfile := SessionConfig.run_ofFile hread htext
    unfold loadConfig
    rw [hpath]
    dsimp only
    cases hbase : base.validate with
    | error e =>
      rw [hbase] at hfile
      exact Action.run_bind_of_error hfile
    | ok _ =>
      rw [hbase] at hfile
      exact (Action.run_bind_of_ok hfile).trans (hjudged base s')

/-- Files that all have one text. -/
def sameFiles (text : String) : Files Unit := ⟨fun _ => pure text, fun _ => pure ()⟩

/-- **A configuration is judged twice.** Loading (`loadConfig`) succeeds exactly if the
configuration that the command line starts from (`StartsFrom`) is valid and so is what it makes of
it (`Settings.over`), which is then what is loaded.  A first defect of the one is the error, or else
one of the other (`SessionConfig.Reports`); where no file is named, there is nothing wrong with the
one. -/
theorem config_is_judged_twice (h : StartsFrom files settings s base s') :
    let merged := settings.over base
    let run := (loadConfig files settings).run s
    ((∃ c, run.1 = .ok c) ↔ base.Valid ∧ merged.Valid) ∧
      (base.Valid → merged.Valid → run = (.ok merged, s')) ∧
      (∀ f, base.Reports f → run = (.error (.config f.text), s')) ∧
      (base.Valid → ∀ f, merged.Reports f → run = (.error (.config f.text), s')) ∧
      (settings.config = none → base.Valid) := by
  intro merged run
  have hrun : run = _ := h.run_loadConfig
  have hloads (hbase : base.Valid) (hmerged : merged.Valid) : run = (.ok merged, s') := by
    rw [hrun, SessionConfig.validate_of_valid hbase, SessionConfig.validate_of_valid hmerged]
    rfl
  have hfirst (f : Defect) (hf : base.Reports f) : run = (.error (.config f.text), s') := by
    rw [hrun, SessionConfig.validate_of_reports hf]
    rfl
  have hsecond (hbase : base.Valid) (f : Defect) (hf : merged.Reports f) :
      run = (.error (.config f.text), s') := by
    rw [hrun, SessionConfig.validate_of_valid hbase, SessionConfig.validate_of_reports hf]
    rfl
  refine ⟨⟨?_, ?_⟩, hloads, hfirst, hsecond, ?_⟩
  · rintro ⟨c, hc⟩
    -- if one of the two reports a defect, nothing is loaded
    rcases base.valid_or_reports with hbase | ⟨f, hf⟩
    · rcases merged.valid_or_reports with hmerged | ⟨f, hf⟩
      · exact ⟨hbase, hmerged⟩
      · rw [hsecond hbase f hf] at hc
        cases hc
    · rw [hfirst f hf] at hc
      cases hc
  · rintro ⟨hbase, hmerged⟩
    exact ⟨merged, congrArg Prod.fst (hloads hbase hmerged)⟩
  · intro hnone
    cases h with
    | standard => exact SessionConfig.standard_valid
    | file hpath => cases hnone.symm.trans hpath

/-- A file with a server and an account for it, and a namespace from the command line. -/
theorem account_with_server_is_loaded :
    let files := sameFiles
      "\x7b\"server\":\"hv01\",\"credentials\":\x7b\"user\":\"u\",\"password\":\"p\"\x7d\x7d"
    let settings : Settings := { config := some "session.json", namespaceName := some "root\\x" }
    (loadConfig files settings).run () =
      (.ok {
        namespaceName := "root\\x"
        server := some "hv01"
        credentials := some ⟨"u", "p"⟩ }, ()) := by
  intro files settings
  have hstart : StartsFrom files settings ()
      { server := some "hv01", credentials := some ⟨"u", "p"⟩ } () :=
    .file rfl rfl (by decide +kernel)
  obtain ⟨-, hloads, -⟩ := config_is_judged_twice hstart
  exact hloads (fun f => by cases f <;> decide) fun f => by cases f <;> decide

/-- An account without a server is not mended by a server on the command line, although with it
nothing is wrong. -/
theorem account_without_server_is_refused :
    let files := sameFiles "\x7b\"credentials\":\x7b\"user\":\"u\",\"password\":\"p\"\x7d\x7d"
    let settings : Settings := { config := some "session.json", server := some "hv01" }
    let base : SessionConfig := { credentials := some ⟨"u", "p"⟩ }
    StartsFrom files settings () base () ∧ (settings.over base).validate = .ok () ∧
      (loadConfig files settings).run () =
        (.error (.config "credentials cannot be used for local connections"), ()) := by
  intro files settings base
  have hstart : StartsFrom files settings () base () := .file rfl rfl (by decide +kernel)
  exact ⟨hstart, rfl, hstart.run_loadConfig⟩

/-- Where nothing is wrong with what the command line makes of a configuration, there was something
wrong with it before exactly if it had one of the defects that a command line can take away. -/
theorem invalid_base_iff (hmerged : (settings.over base).Valid) :
    ¬ base.Valid ↔ base.namespaceName = "" ∨ base.server = some "" ∨
      base.credentials.isSome ∧ base.server = none := by
  constructor
  · intro hinvalid
    rcases base.valid_or_reports with hvalid | ⟨f, hf, -⟩
    · exact absurd hvalid hinvalid
    · cases f with
      | emptyNamespace => exact .inl hf
      | emptyServer => exact .inr (.inl hf)
      | localCredentials => exact .inr (.inr hf)
      -- the command line leaves the account and the timeout as they are
      | emptyUser => exact absurd hf (hmerged .emptyUser)
      | noTime => exact absurd hf (hmerged .noTime)
  · intro hdefect hvalid
    rcases hdefect with hname | hserver | hlocal
    · exact hvalid .emptyNamespace hname
    · exact hvalid .emptyServer hserver
    · exact hvalid .localCredentials hlocal

end CommandLine

end CimBroker
