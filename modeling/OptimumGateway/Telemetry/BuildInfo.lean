import OptimumGateway.Foundation.CallHistory
import OptimumGateway.Foundation.GoError
import OptimumGateway.Foundation.GoMap

/-!
# The build-info series

This module models `SetAppBuildPairedWith` and the part of `InitMetricsWithRegistry` of
`pkg/service/telemetry/metrics.go` that creates the gauge `app_build_info`.

A change of the gateway type deletes the series of the type before it.  That type is kept in
a variable whose empty value stands for "none yet", and an empty type is a value like any
other.  So the first type has no series if it is empty, and the series of an empty type is
not deleted when the next type comes.  `one_series_iff` says that there is exactly one series
throughout exactly when the first type is not empty and no other type follows an empty one.

A label set of the gauge is a record, since its five names are fixed.
-/

namespace OptimumGateway
namespace Telemetry

open Foundation

section Gauges

/-- The series of a gauge vector, each with its label set and its value. -/
abbrev GaugeVec (L : Type) := GoMap L Nat

variable {L : Type} [DecidableEq L]

/-- `With` creates the series of a label set if there is none. -/
def GaugeVec.withLabels (vec : GaugeVec L) (labels : L) : GaugeVec L :=
  if labels ∈ vec then vec else vec.insert labels 0

/-- `Set` on the series of a label set. -/
def GaugeVec.set (vec : GaugeVec L) (labels : L) (value : Nat) : GaugeVec L :=
  vec.insert labels value

def GaugeVec.delete (vec : GaugeVec L) (labels : L) : GaugeVec L :=
  vec.erase labels

theorem GaugeVec.entries_set_withLabels
    (vec : GaugeVec L)
    (labels : L)
    (value : Nat) :
    (GaugeVec.set (vec.withLabels labels) labels value).entries =
      ⟨labels, value⟩ :: vec.entries.kerase labels := by
  unfold GaugeVec.set GaugeVec.withLabels
  split
  · exact AList.entries_insert
  · rw [AList.insert_insert]
    exact AList.entries_insert

end Gauges

section BuildInfo

/-- `appBuildBaseLabels`. -/
structure BaseLabels where
  version : String
  commit : String
  go : String
  publicIP : String
deriving DecidableEq

structure BuildLabels extends BaseLabels where
  pairedWith : String
deriving DecidableEq

/-- A clone of the base labels with `paired_with`. -/
def BaseLabels.paired (base : BaseLabels) (pairedWith : String) : BuildLabels :=
  { base with pairedWith := pairedWith }

theorem BaseLabels.paired_inj
    {base : BaseLabels} {pairedWith pairedWith' : String} :
    base.paired pairedWith = base.paired pairedWith'
      ↔
    pairedWith = pairedWith' := by
  simp [BaseLabels.paired]

/-- The three variables of the package. -/
structure BuildInfo where
  appBuildInfo : Option (GaugeVec BuildLabels)
  appBuildBaseLabels : BaseLabels
  appBuildPairedWith : String

def setAppBuildPairedWith (s : BuildInfo) (pairedWith : String) : BuildInfo :=
  match s.appBuildInfo with
  | none => s
  | some vec =>
      if pairedWith = s.appBuildPairedWith then
        s
      else
        let kept :=
          if s.appBuildPairedWith ≠ "" then
            GaugeVec.delete vec (s.appBuildBaseLabels.paired s.appBuildPairedWith)
          else
            vec
        let current := s.appBuildBaseLabels.paired pairedWith
        { s with
          appBuildInfo := some (GaugeVec.set (GaugeVec.withLabels kept current) current 1)
          appBuildPairedWith := pairedWith }

/-- The variables once the gauge is registered.  The external address is "unknown" if it is
not found. -/
def registeredBuildInfo
    (version commit go : String)
    (externalIP : Except GoError String) : BuildInfo :=
  let publicIP :=
    match externalIP with
    | .error _ => "unknown"
    | .ok ip => ip
  { appBuildInfo := some ∅
    appBuildBaseLabels := ⟨version, commit, go, publicIP⟩
    appBuildPairedWith := "" }

def initMetricsWithRegistry
    (version commit go : String)
    (externalIP : Except GoError String)
    (pairedWith : String) : BuildInfo :=
  setAppBuildPairedWith (registeredBuildInfo version commit go externalIP) pairedWith

/-- There is one series, with value 1, for the type. -/
def OneSeries (s : BuildInfo) (pairedWith : String) : Prop :=
  ∃ vec, s.appBuildInfo = some vec ∧
    vec.entries = [⟨s.appBuildBaseLabels.paired pairedWith, 1⟩]

variable {s : BuildInfo} {vec : GaugeVec BuildLabels} {pairedWith : String}

/-- What a change of the type does: it puts the series of the new type before what is left of
the others. -/
theorem setAppBuildPairedWith_of_ne
    (hvec : s.appBuildInfo = some vec)
    (hne : pairedWith ≠ s.appBuildPairedWith) :
    ∃ vec', setAppBuildPairedWith s pairedWith =
        { s with appBuildInfo := some vec', appBuildPairedWith := pairedWith } ∧
      vec'.entries = ⟨s.appBuildBaseLabels.paired pairedWith, 1⟩ ::
        (if s.appBuildPairedWith ≠ "" then
          vec.entries.kerase (s.appBuildBaseLabels.paired s.appBuildPairedWith)
        else
          vec.entries).kerase (s.appBuildBaseLabels.paired pairedWith) := by
  unfold setAppBuildPairedWith
  rw [hvec]
  dsimp only
  rw [if_neg hne]
  refine ⟨_, rfl, ?_⟩
  rw [GaugeVec.entries_set_withLabels]
  by_cases hempty : s.appBuildPairedWith ≠ ""
  · rw [if_pos hempty, if_pos hempty]
    rfl
  · rw [if_neg hempty, if_neg hempty]

theorem setAppBuildPairedWith_of_eq
    (heq : pairedWith = s.appBuildPairedWith) :
    setAppBuildPairedWith s pairedWith = s := by
  unfold setAppBuildPairedWith
  cases s.appBuildInfo with
  | none => rfl
  | some vec => exact if_pos heq

/-- The type that was set last is remembered. -/
theorem appBuildPairedWith_set
    (hvec : s.appBuildInfo ≠ none) :
    (setAppBuildPairedWith s pairedWith).appBuildPairedWith = pairedWith ∧
      (setAppBuildPairedWith s pairedWith).appBuildInfo ≠ none := by
  by_cases heq : pairedWith = s.appBuildPairedWith
  · rw [setAppBuildPairedWith_of_eq heq]
    exact ⟨heq.symm, hvec⟩
  · obtain ⟨vec, hsome⟩ := Option.ne_none_iff_exists'.mp hvec
    obtain ⟨vec', hset, -⟩ := setAppBuildPairedWith_of_ne hsome heq
    rw [hset]
    exact ⟨rfl, Option.some_ne_none vec'⟩

/-- The latest type is the remembered one after every sequence of calls. -/
theorem appBuildPairedWith_foldl
    (hvec : s.appBuildInfo ≠ none)
    (calls : List String) :
    (calls.foldl setAppBuildPairedWith s).appBuildPairedWith =
      calls.getLastD s.appBuildPairedWith := by
  induction calls generalizing s with
  | nil => rfl
  | cons next calls ih =>
      obtain ⟨hnext, hsome⟩ := @appBuildPairedWith_set s next hvec
      rw [List.foldl_cons, ih hsome, hnext, List.getLastD_cons]

/-- One series stays one series exactly if no type follows an empty one. -/
theorem OneSeries.set_iff
    (h : OneSeries s s.appBuildPairedWith) :
    OneSeries (setAppBuildPairedWith s pairedWith) pairedWith
      ↔
    (s.appBuildPairedWith = "" → pairedWith = "") := by
  obtain ⟨vec, hvec, hentries⟩ := h
  by_cases heq : pairedWith = s.appBuildPairedWith
  · rw [setAppBuildPairedWith_of_eq heq, heq]
    exact iff_of_true ⟨vec, hvec, hentries⟩ id
  · obtain ⟨vec', hset, hentries'⟩ := setAppBuildPairedWith_of_ne hvec heq
    rw [hentries] at hentries'
    have hone : OneSeries (setAppBuildPairedWith s pairedWith) pairedWith
        ↔
        vec'.entries = [⟨s.appBuildBaseLabels.paired pairedWith, 1⟩] := by
      rw [hset]
      simp [OneSeries]
    rw [hone, hentries']
    by_cases hempty : s.appBuildPairedWith = ""
    · -- the series of the empty type is not deleted
      have hother : s.appBuildBaseLabels.paired s.appBuildPairedWith ≠
          s.appBuildBaseLabels.paired pairedWith := by
        rw [ne_eq, BaseLabels.paired_inj]
        exact Ne.symm heq
      rw [if_neg (not_not.mpr hempty), List.kerase_cons_ne hother.symm]
      have hne : pairedWith ≠ "" := fun h => heq (h.trans hempty.symm)
      simp [hempty, hne]
    · have hkerase : List.kerase (s.appBuildBaseLabels.paired s.appBuildPairedWith)
          [(⟨s.appBuildBaseLabels.paired s.appBuildPairedWith, 1⟩ : Sigma fun _ => Nat)] = [] :=
        List.kerase_cons_eq rfl
      rw [if_pos hempty, hkerase]
      simp [hempty]

/-- One series stays one series throughout exactly if no type follows an empty one. -/
theorem oneSeries_foldl_iff
    (h : OneSeries s s.appBuildPairedWith)
    (calls : List String) :
    (∀ done rest, calls = done ++ rest →
      OneSeries (done.foldl setAppBuildPairedWith s)
        (done.foldl setAppBuildPairedWith s).appBuildPairedWith)
      ↔
    ∀ done next rest, calls = done ++ next :: rest →
      (done.foldl setAppBuildPairedWith s).appBuildPairedWith = "" → next = "" := by
  have hset : ∀ u next, OneSeries u u.appBuildPairedWith →
      (OneSeries (setAppBuildPairedWith u next) (setAppBuildPairedWith u next).appBuildPairedWith
        ↔
      (u.appBuildPairedWith = "" → next = "")) := by
    intro u next hu
    obtain ⟨vec, hvec, -⟩ := id hu
    have hnext := (@appBuildPairedWith_set u next (by simp [hvec])).1
    rw [hnext]
    exact OneSeries.set_iff hu
  exact foldl_invariant_iff
    (I := fun u => OneSeries u u.appBuildPairedWith)
    (C := fun u next => u.appBuildPairedWith = "" → next = "")
    h hset

section Runs

variable
  (version commit go : String)
  (externalIP : Except GoError String)
  (initial : String)

theorem appBuildPairedWith_init :
    (initMetricsWithRegistry version commit go externalIP initial).appBuildPairedWith = initial ∧
      (initMetricsWithRegistry version commit go externalIP initial).appBuildInfo ≠ none :=
  appBuildPairedWith_set (Option.some_ne_none _)

/-- After a first type that is not empty, the latest type is empty only if it was set. -/
theorem getLastD_eq_empty_iff
    (hinitial : initial ≠ "")
    (done : List String) :
    done.getLastD initial = "" ↔ done.getLast? = some "" := by
  rw [List.getLastD_eq_getLast?]
  cases done.getLast? with
  | none => simp [hinitial]
  | some latest => simp

/-- An empty type is taken for the one that is set already. -/
theorem oneSeries_init_iff :
    OneSeries (initMetricsWithRegistry version commit go externalIP initial) initial
      ↔
    initial ≠ "" := by
  unfold initMetricsWithRegistry
  by_cases hempty : initial = ""
  · have hsame : setAppBuildPairedWith (registeredBuildInfo version commit go externalIP) initial =
        registeredBuildInfo version commit go externalIP :=
      setAppBuildPairedWith_of_eq hempty
    rw [hsame]
    simp [OneSeries, registeredBuildInfo, hempty]
  · have hregistered : (registeredBuildInfo version commit go externalIP).appBuildInfo = some ∅ :=
      rfl
    obtain ⟨vec, hset, hentries⟩ := setAppBuildPairedWith_of_ne hregistered hempty
    rw [hset]
    exact iff_of_true ⟨vec, rfl, hentries⟩ hempty

/-- There is one series, for the latest type, after every call exactly if the first type is
not empty and no other type follows an empty one. -/
theorem one_series_iff (calls : List String) :
    (∀ done rest, calls = done ++ rest →
      OneSeries
        (done.foldl setAppBuildPairedWith
          (initMetricsWithRegistry version commit go externalIP initial))
        (done.getLastD initial))
      ↔
    initial ≠ "" ∧
      ∀ done next rest, calls = done ++ next :: rest →
        done.getLast? = some "" → next = "" := by
  obtain ⟨hinitial, hsome⟩ := appBuildPairedWith_init version commit go externalIP initial
  have hlatest : ∀ done : List String,
      (done.foldl setAppBuildPairedWith
          (initMetricsWithRegistry version commit go externalIP initial)).appBuildPairedWith =
        done.getLastD initial := by
    intro done
    rw [appBuildPairedWith_foldl hsome, hinitial]
  by_cases hempty : initial = ""
  · constructor
    · intro h
      exact absurd hempty
        ((oneSeries_init_iff version commit go externalIP initial).mp (h [] calls rfl))
    · intro h
      exact absurd hempty h.1
  · have hone : OneSeries (initMetricsWithRegistry version commit go externalIP initial)
        (initMetricsWithRegistry version commit go externalIP initial).appBuildPairedWith := by
      rw [hinitial]
      exact (oneSeries_init_iff version commit go externalIP initial).mpr hempty
    have hruns := oneSeries_foldl_iff hone calls
    simp only [hlatest, getLastD_eq_empty_iff initial hempty] at hruns
    rw [hruns]
    exact (and_iff_right hempty).symm

/-- No series after an empty first type, and two after "partner", "" and "relay". -/
theorem series_of_empty_types :
    let start := initMetricsWithRegistry "v1.0.0" "abc" "go1.24" (.ok "203.0.113.7")
    ¬ OneSeries (start "") "" ∧
      ¬ OneSeries (["", "relay"].foldl setAppBuildPairedWith (start "partner")) "relay" ∧
      (["", "relay"].foldl setAppBuildPairedWith (start "partner")).appBuildInfo.map
          (fun vec => vec.entries.map fun series => (series.1.pairedWith, series.2)) =
        some [("relay", 1), ("", 1)] := by
  intro start
  have htwo : (["", "relay"].foldl setAppBuildPairedWith (start "partner")).appBuildInfo.map
      (fun vec => vec.entries.map fun series => (series.1.pairedWith, series.2)) =
        some [("relay", 1), ("", 1)] := by
    decide +kernel
  refine ⟨?_, ?_, htwo⟩
  · rw [oneSeries_init_iff]
    exact not_not.mpr rfl
  · rintro ⟨vec, hvec, hentries⟩
    rw [hvec, Option.map_some, hentries] at htwo
    simp at htwo

end Runs

end BuildInfo

end Telemetry
end OptimumGateway
