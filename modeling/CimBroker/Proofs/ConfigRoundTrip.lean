/-
# CimBroker.Proofs.ConfigRoundTrip — configurations through files

A configuration that is written to a file as compact JSON comes back from it, and fields that are
left out of the file come back as their defaults.  The structure is read field by field from members
with distinct names (`Json.fields?_ofMembers`), so each field comes back by itself, and what is
loaded is judged as a whole.  Leaving fields out of a valid configuration makes it invalid in one
way only: an account without the server that it is for (`SessionConfig.validate_keeping`).

`SessionConfig.config_comes_back` has both parts.  It is about files that hold what is written here.
Members that no field has, blanks between them, and fields of a wrong type are not considered, and
numbers are of 64 bits (`SessionConfig.Fits`), as all are that can be read.
-/
import CimBroker.Proofs.ConfigLoading
import CimBroker.Proofs.JsonRoundTrip

namespace CimBroker

/-! ## Structures -/

namespace Json

variable {members : List (String × Json)}

/-- At most one member has a name. -/
theorem filter_name_eq (hnames : (members.map Prod.fst).Nodup) (name : String) :
    (members.filter fun m => m.1 == name) = (members.find? fun m => m.1 == name).toList := by
  rw [← List.head?_filter]
  cases hfound : members.filter fun m => m.1 == name with
  | nil => rfl
  | cons m others =>
    cases others with
    | nil => rfl
    | cons m' others =>
      -- two of them would have one name
      have hname (m : String × Json) (hm : m ∈ members.filter fun m => m.1 == name) : m.1 = name :=
        eq_of_beq (List.mem_filter.mp hm).2
      have honce := (List.filter_sublist (p := fun m => m.1 == name) (l := members)).map Prod.fst
      have hnodup := honce.nodup hnames
      have hfirst := hname m (hfound ▸ List.mem_cons_self)
      have hsecond := hname m' (hfound ▸ List.mem_cons_of_mem _ List.mem_cons_self)
      rw [hfound] at hnodup
      simp [hfirst, hsecond] at hnodup

/-- **The fields of a structure are its members.** -/
theorem fields?_ofMembers (hnames : (members.map Prod.fst).Nodup) (names : List String) :
    (ofMembers members).fields? names =
      some (names.map fun name => (members.find? fun m => m.1 == name).map Prod.snd) := by
  have hnamed : (members.map fun m => (some m.1, m.2)).mapM
      (fun m : Option String × Json => m.1.map fun name => (name, m.2)) = some members := by
    rw [List.mapM_map]
    exact (List.mapM_pure (f := id)).trans (congrArg some (List.map_id _))
  unfold ofMembers fields?
  simp only [hnamed, Option.bind_eq_bind, Option.bind_some, filter_name_eq hnames]
  induction names with
  | nil => rfl
  | cons name names ih =>
    rw [List.mapM_cons, ih, List.map_cons]
    cases members.find? fun m => m.1 == name <;> rfl

/-- A member that is kept is found among the members that are kept. -/
theorem find?_kept (members : List (String × Json)) (keep : String → Bool) (name : String) :
    ((members.filter fun m => keep m.1).find? fun m => m.1 == name) =
      if keep name then members.find? fun m => m.1 == name else none := by
  induction members with
  | nil => simp
  | cons m members ih =>
    by_cases hname : m.1 = name
    · subst hname
      by_cases hkeep : keep m.1 = true <;> simp [hkeep, ih]
    · by_cases hkeep : keep m.1 = true <;> simp [hkeep, hname, ih]

theorem option?_ofOption {α : Type} {f : α → Json} {read? : Json → Option α} {found : Option α}
    (h : ∀ x ∈ found, f x ≠ .null ∧ read? (f x) = some x) :
    option? read? (ofOption f found) = some found := by
  cases found with
  | none => rfl
  | some x =>
    obtain ⟨hsome, hread⟩ := h x rfl
    show option? read? (f x) = _
    unfold option?
    split
    · next hnull => exact absurd hnull hsome
    · rw [hread, Option.map_some]

theorem natBelow?_ofNat {n bound : Nat} (h : n < bound) : natBelow? bound (ofNat n) = some n := by
  have hread : Number.ofDecimal? (Number.decimal n) = some n :=
    Number.ofDigits?_digits (by omega) (by omega) n
  rw [ofNat, natBelow?, hread]
  exact if_pos h

theorem wellFormed_ofOption {α : Type} {f : α → Json} (h : ∀ x, WellFormed (f x))
    (found : Option α) : WellFormed (ofOption f found) := by
  cases found with
  | none => exact .null
  | some x => exact h x

theorem wellFormed_ofMembers (h : ∀ m ∈ members, WellFormed m.2) :
    WellFormed (ofMembers members) := by
  refine .object (fun m hm => ?_) fun m hm => ?_
  · obtain ⟨entry, -, rfl⟩ := List.mem_map.mp hm
    rfl
  · obtain ⟨entry, hentry, rfl⟩ := List.mem_map.mp hm
    exact h entry hentry

end Json

/-! ## Configurations -/

namespace SessionConfig

open Json (WellFormed)

/-- The fields of a configuration as JSON, by name. -/
def members (c : SessionConfig) : List (String × Json) :=
  [("namespace", .ofText c.namespaceName), ("server", .ofOption .ofText c.server),
    ("credentials", .ofOption credentialsJson c.credentials),
    ("poll_interval_ms", .ofNat c.pollMillis),
    ("job_timeout_secs", .ofOption .ofNat c.timeoutSeconds)]

/-- The JSON of a configuration with some of its fields left out. -/
def partJson (c : SessionConfig) (keep : String → Bool) : Json :=
  .ofMembers (c.members.filter fun m => keep m.1)

/-- The configuration with some of its fields, and the others at their defaults. -/
def keeping (c : SessionConfig) (keep : String → Bool) : SessionConfig where
  namespaceName := if keep "namespace" then c.namespaceName else standard.namespaceName
  server := if keep "server" then c.server else standard.server
  credentials := if keep "credentials" then c.credentials else standard.credentials
  pollMillis := if keep "poll_interval_ms" then c.pollMillis else standard.pollMillis
  timeoutSeconds := if keep "job_timeout_secs" then c.timeoutSeconds else standard.timeoutSeconds

/-- The configuration's numbers are of 64 bits. -/
structure Fits (c : SessionConfig) : Prop where
  poll : c.pollMillis < 2 ^ 64
  timeout : ∀ t ∈ c.timeoutSeconds, t < 2 ^ 64

theorem partJson_all (c : SessionConfig) : c.partJson (fun _ => true) = c.toJson := by
  unfold partJson
  rw [List.filter_true]
  rfl

theorem keeping_all (c : SessionConfig) : c.keeping (fun _ => true) = c := rfl

theorem wellFormed_partJson (c : SessionConfig) (keep : String → Bool) :
    WellFormed (c.partJson keep) := by
  have hcredentials (x : Credentials) : WellFormed (credentialsJson x) := by
    refine Json.wellFormed_ofMembers ?_
    simp only [List.forall_mem_cons]
    exact ⟨.text _, .text _, nofun⟩
  have hmembers : ∀ m ∈ c.members, WellFormed m.2 := by
    simp only [members, List.forall_mem_cons]
    exact ⟨.text _, Json.wellFormed_ofOption .text _, Json.wellFormed_ofOption hcredentials _,
      .number (Json.isLiteral_decimal _),
      Json.wellFormed_ofOption (fun n => .number (Json.isLiteral_decimal n)) _, nofun⟩
  exact Json.wellFormed_ofMembers fun m hm => hmembers m (List.mem_filter.mp hm).1

/-- A field that is kept is read, and one that is left out is at its default. -/
theorem fieldOr_kept {α : Type} {read? : Json → Option α} {x : α} {j : Json}
    (h : read? j = some x) (fallback : α) (kept : Bool) :
    fieldOr read? fallback (if kept then some j else none) =
      some (if kept then x else fallback) := by
  cases kept with
  | false => rfl
  | true => exact h

/-- **What `partJson` keeps of a configuration comes back**, with the rest at its defaults
(`keeping`). -/
theorem ofJson?_partJson {c : SessionConfig} (h : c.Fits) (keep : String → Bool) :
    ofJson? (c.partJson keep) = some (c.keeping keep) := by
  have hnames : ((c.members.filter fun m => keep m.1).map Prod.fst).Nodup := by
    refine ((List.filter_sublist (l := c.members)).map Prod.fst).nodup ?_
    show ["namespace", "server", "credentials", "poll_interval_ms", "job_timeout_secs"].Nodup
    decide
  have hfields : (c.partJson keep).fields?
      ["namespace", "server", "credentials", "poll_interval_ms", "job_timeout_secs"] =
      some [if keep "namespace" then some (.ofText c.namespaceName) else none,
        if keep "server" then some (.ofOption .ofText c.server) else none,
        if keep "credentials" then some (.ofOption credentialsJson c.credentials) else none,
        if keep "poll_interval_ms" then some (.ofNat c.pollMillis) else none,
        if keep "job_timeout_secs" then some (.ofOption .ofNat c.timeoutSeconds) else none] := by
    have hfield (name : String) (j : Json)
        (hj : (c.members.find? fun m => m.1 == name).map Prod.snd = some j) :
        ((c.members.filter fun m => keep m.1).find? fun m => m.1 == name).map Prod.snd =
          if keep name then some j else none := by
      rw [Json.find?_kept]
      split
      · exact hj
      · rfl
    rw [partJson, Json.fields?_ofMembers hnames]
    simp only [List.map_cons, List.map_nil]
    rw [hfield "namespace" _ rfl, hfield "server" _ rfl, hfield "credentials" _ rfl,
      hfield "poll_interval_ms" _ rfl, hfield "job_timeout_secs" _ rfl]
  have hserver : Json.option? Json.text? (.ofOption .ofText c.server) = some c.server :=
    Json.option?_ofOption fun _ _ => ⟨nofun, rfl⟩
  have hcredentials : Json.option? credentialsOfJson? (.ofOption credentialsJson c.credentials) =
      some c.credentials := Json.option?_ofOption fun _ _ => ⟨nofun, rfl⟩
  have htimeout : Json.option? (Json.natBelow? (2 ^ 64)) (.ofOption .ofNat c.timeoutSeconds) =
      some c.timeoutSeconds :=
    Json.option?_ofOption fun t ht => ⟨nofun, Json.natBelow?_ofNat (h.timeout t ht)⟩
  unfold ofJson?
  simp only [hfields, Option.bind_eq_bind, Option.bind_some,
    fieldOr_kept (show Json.text? (.ofText c.namespaceName) = some c.namespaceName from rfl),
    fieldOr_kept hserver, fieldOr_kept hcredentials, fieldOr_kept (Json.natBelow?_ofNat h.poll),
    fieldOr_kept htimeout]
  rfl

/-! ### What is kept may be invalid -/

/-- Only an account can come to be at fault by what is left out. -/
theorem not_in_keeping {c : SessionConfig} (h : c.Valid) (keep : String → Bool) {f : Defect}
    (hf : f ≠ .localCredentials) : ¬ f.In (c.keeping keep) := by
  cases f with
  | localCredentials => exact absurd rfl hf
  | emptyNamespace =>
    show ¬ (if keep "namespace" then c.namespaceName else standard.namespaceName) = ""
    split
    · exact h .emptyNamespace
    · exact standard_valid .emptyNamespace
  | emptyServer =>
    show ¬ (if keep "server" then c.server else standard.server) = some ""
    split
    · exact h .emptyServer
    · exact standard_valid .emptyServer
  | emptyUser =>
    show ¬ (if keep "credentials" then c.credentials else standard.credentials).map
      Credentials.user = some ""
    split
    · exact h .emptyUser
    · exact standard_valid .emptyUser
  | noTime =>
    show ¬ (if keep "job_timeout_secs" then c.timeoutSeconds else standard.timeoutSeconds) = some 0
    split
    · exact h .noTime
    · exact standard_valid .noTime

/-- The configuration has an account, and is left without the server for it. -/
def StrandsAccount (c : SessionConfig) (keep : String → Bool) : Prop :=
  c.credentials.isSome = true ∧ keep "credentials" = true ∧ keep "server" = false

theorem localCredentials_in_keeping_iff {c : SessionConfig} (h : c.Valid) (keep : String → Bool) :
    Defect.localCredentials.In (c.keeping keep) ↔ c.StrandsAccount keep := by
  have hserver : c.credentials.isSome = true → c.server ≠ none :=
    fun haccount hnone => h .localCredentials ⟨haccount, hnone⟩
  show ((if keep "credentials" then c.credentials else standard.credentials).isSome ∧
    (if keep "server" then c.server else standard.server) = none) ↔ _
  unfold StrandsAccount
  cases hkeep : keep "credentials" with
  | false => simp [standard]
  | true =>
    cases keep "server" with
    | false => simp [standard]
    | true => simpa using hserver

/-- **What is kept of a `Valid` configuration is valid**, unless an account loses its server
(`StrandsAccount`). -/
theorem validate_keeping {c : SessionConfig} (h : c.Valid) (keep : String → Bool) :
    (c.StrandsAccount keep ∧ (c.keeping keep).validate =
        .error (.config "credentials cannot be used for local connections")) ∨
      ¬ c.StrandsAccount keep ∧ (c.keeping keep).validate = .ok () := by
  by_cases hstrands : c.StrandsAccount keep
  · refine .inl ⟨hstrands, validate_of_reports (f := .localCredentials) ?_⟩
    refine ⟨(localCredentials_in_keeping_iff h keep).mpr hstrands,
      [.emptyNamespace, .emptyServer, .emptyUser], [.noTime], rfl, fun g hg => ?_⟩
    refine not_in_keeping h keep ?_
    rintro rfl
    simp at hg
  · refine .inr ⟨hstrands, validate_of_valid fun f => ?_⟩
    by_cases hf : f = .localCredentials
    · rw [hf, localCredentials_in_keeping_iff h keep]
      exact hstrands
    · exact not_in_keeping h keep hf

/-! ### Files -/

/-- **A configuration comes back from its file.** Take a valid configuration whose numbers are of 64
bits (`Fits`).  A file that holds its compact JSON text is loaded (`ofFile`) as the configuration.

A file that holds the text with any of the fields left out (`partJson`) is loaded as the
configuration with these fields at their defaults (`keeping`), if that is valid, and fails with the
fault of that one if not.  It is valid unless the server is left out and an account for it is not
(`StrandsAccount`). -/
theorem config_comes_back {σ : Type} {files : Files σ} {path : String} {c : SessionConfig}
    (hvalid : c.validate = .ok ()) (hfits : c.Fits) :
    (∀ s s', (files.read path).run s = (.ok c.toJson.compact, s') →
      (ofFile files path).run s = (.ok c, s')) ∧
    ∀ keep : String → Bool,
      (∀ s s', (files.read path).run s = (.ok (c.partJson keep).compact, s') →
        (ofFile files path).run s =
          ((c.keeping keep).validate.map fun _ => c.keeping keep, s')) ∧
      ((c.StrandsAccount keep ∧ (c.keeping keep).validate =
          .error (.config "credentials cannot be used for local connections")) ∨
        ¬ c.StrandsAccount keep ∧ (c.keeping keep).validate = .ok ()) := by
  have hpart (keep : String → Bool) (s s' : σ)
      (hread : (files.read path).run s = (.ok (c.partJson keep).compact, s')) :
      (ofFile files path).run s =
        ((c.keeping keep).validate.map fun _ => c.keeping keep, s') := by
    refine run_ofFile hread ?_
    rw [Json.ofText?_compact (c.wellFormed_partJson keep), Option.bind_some,
      ofJson?_partJson hfits]
  refine ⟨fun s s' hread => ?_, fun keep => ⟨hpart keep, ?_⟩⟩
  · have hfull := hpart (fun _ => true) s s' (c.partJson_all.symm ▸ hread)
    rw [keeping_all, hvalid] at hfull
    exact hfull
  · exact validate_keeping (validate_eq_ok_iff.mp hvalid) keep

/-- A configuration with an account whose password is a quote, a line end and a character beyond
the others comes back, and without its server it does not. -/
theorem remote_config_comes_back :
    let c : SessionConfig := {
      server := some "hv01"
      credentials := some ⟨"admin", "\"\n😀"⟩
      pollMillis := 2 ^ 64 - 1
      timeoutSeconds := some 60 }
    let keep := fun name => name != "server"
    (ofFile (CommandLine.sameFiles c.toJson.compact) "session.json").run () = (.ok c, ()) ∧
      (ofFile (CommandLine.sameFiles (c.partJson keep).compact) "session.json").run () =
        (.error (.config "credentials cannot be used for local connections"), ()) := by
  intro c keep
  have hvalid : c.validate = .ok () := rfl
  have hfits : c.Fits := by
    refine ⟨by decide, ?_⟩
    rintro t ⟨rfl⟩
    decide
  refine ⟨(config_comes_back hvalid hfits).1 () () rfl, ?_⟩
  obtain ⟨hloaded, hjudged⟩ := (config_comes_back hvalid hfits).2 keep
  have hstrands : c.StrandsAccount keep := ⟨rfl, by decide, by decide⟩
  rcases hjudged with ⟨-, herror⟩ | ⟨hnot, -⟩
  · rw [hloaded () () rfl, herror]
    rfl
  · exact absurd hstrands hnot

end SessionConfig

end CimBroker
