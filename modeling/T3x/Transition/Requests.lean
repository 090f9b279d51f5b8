import T3x.Transition.Commits

/-!
# What the verification of a commit requests

Verification resolves the objects on the way from a commit. Where another resolver, under
another hash, returns what was resolved, the commit is verified in the same way.
-/

namespace T3x.Transition

open Js Independent

variable {sha256 sha256' : List UInt8 → JsString} {resolver resolver' : ObjectResolver}
  {commit : JsValue} {verified : VerifiedCommitIntegrity}

/-- What the verification of a commit resolves. -/
inductive Requests (sha256 : List UInt8 → JsString) (resolver : ObjectResolver)
    (verified : VerifiedCommitIntegrity) : JsValue → Prop
  /-- The Decision. -/
  | decision : Requests sha256 resolver verified (part verified.commit "decision")
  /-- The Proposal. -/
  | proposal : Requests sha256 resolver verified ((parts verified.decision "subjects").headD .null)
  /-- The Effect. -/
  | effect : Requests sha256 resolver verified ((parts verified.proposal "subjects").headD .null)
  /-- The State where the Effect starts. -/
  | base : Requests sha256 resolver verified (part verified.effect "base")
  /-- The State that results. -/
  | result : Requests sha256 resolver verified (part verified.commit "result")
  /-- An input of the Effect. -/
  | input {input : JsValue} (h : input ∈ parts verified.effect "inputs") :
      Requests sha256 resolver verified (part input "object")
  /-- A Statement that the Decision considered. -/
  | considered {statement : JsValue}
      (h : statement ∈ parts (part verified.decision "predicate") "considered") :
      Requests sha256 resolver verified statement
  /-- A subject of such a Statement. -/
  | subject {requested statement subject : JsValue}
      (h : requested ∈ parts (part verified.decision "predicate") "considered")
      (hstatement : resolveProtocolObject sha256 resolver requested = .ok statement)
      (hsubject : subject ∈ parts statement "subjects") :
      Requests sha256 resolver verified subject
  /-- A parent. -/
  | parent {parent : JsValue} (h : parent ∈ parts verified.commit "parents") :
      Requests sha256 resolver verified parent

/-- A list of computations gives what another gives when each of them does. -/
theorem mapM_of_imp {S T E : Type} {f g : S → Except E T} {xs : List S} {ys : List T}
    (h : xs.mapM f = .ok ys) (hfg : ∀ x ∈ xs, ∀ y, f x = .ok y → g x = .ok y) :
    xs.mapM g = .ok ys := by
  rw [mapM_eq_ok_iff] at h ⊢
  induction h with
  | nil => exact .nil
  | @cons x y xs ys hx _ ih =>
    exact .cons (hfg x List.mem_cons_self y hx)
      (ih fun z hz => hfg z (List.mem_cons_of_mem _ hz))

/-- The subjects of a Statement are resolved by another resolver that resolves them. -/
theorem verifyStatementSubjects_of_imp {statement : JsValue}
    (h : verifyStatementSubjects sha256 resolver statement = .ok ())
    (himp : ∀ subject ∈ parts statement "subjects", ∀ object,
      resolveProtocolObject sha256 resolver subject = .ok object →
      resolveProtocolObject sha256' resolver' subject = .ok object) :
    verifyStatementSubjects sha256' resolver' statement = .ok () := by
  obtain ⟨parsed, hparsed, hresolve⟩ := bind_eq_ok_iff.mp h
  obtain rfl := parseStatement_returns _ _ hparsed
  obtain ⟨objects, hobjects, -⟩ := bind_eq_ok_iff.mp hresolve
  exact bind_eq_ok_iff.mpr ⟨_, hparsed,
    bind_eq_ok_iff.mpr ⟨objects, mapM_of_imp hobjects himp, rfl⟩⟩

/-- What one resolver verifies, another one verifies that resolves what is requested; the commit
is returned. -/
theorem verifyCommitIntegrity_of_requests
    (h : verifyCommitIntegrity sha256 resolver commit = .ok verified)
    (himp : ∀ requested, Requests sha256 resolver verified requested → ∀ object,
      resolveProtocolObject sha256 resolver requested = .ok object →
      resolveProtocolObject sha256' resolver' requested = .ok object) :
    verifyCommitIntegrity sha256' resolver' commit = .ok verified ∧ verified.commit = commit := by
  obtain ⟨parsed, hparsed, h⟩ := bind_eq_ok_iff.mp h
  obtain ⟨decision, hdecision, h⟩ := bind_eq_ok_iff.mp h
  obtain ⟨hisDecision, h⟩ := refuse_eq_ok_iff.mp h
  obtain ⟨decision', hdecision', h⟩ := bind_eq_ok_iff.mp h
  obtain ⟨hrejected, h⟩ := refuse_eq_ok_iff.mp h
  obtain ⟨proposal, hproposal, h⟩ := bind_eq_ok_iff.mp h
  obtain ⟨hisProposal, h⟩ := refuse_eq_ok_iff.mp h
  obtain ⟨proposal', hproposal', h⟩ := bind_eq_ok_iff.mp h
  obtain ⟨effect, heffect, h⟩ := bind_eq_ok_iff.mp h
  obtain ⟨hisEffect, h⟩ := refuse_eq_ok_iff.mp h
  obtain ⟨effect', heffect', h⟩ := bind_eq_ok_iff.mp h
  obtain ⟨hresults, h⟩ := refuse_eq_ok_iff.mp h
  obtain ⟨base, hbase, h⟩ := bind_eq_ok_iff.mp h
  obtain ⟨base', hbase', h⟩ := bind_eq_ok_iff.mp h
  obtain ⟨result, hresult, h⟩ := bind_eq_ok_iff.mp h
  obtain ⟨inputs, hinputs, h⟩ := bind_eq_ok_iff.mp h
  obtain ⟨considered, hconsidered, h⟩ := bind_eq_ok_iff.mp h
  obtain ⟨parents, hparents, h⟩ := bind_eq_ok_iff.mp h
  obtain ⟨_, hverify, h⟩ := bind_eq_ok_iff.mp h
  -- The checks return what they check.
  obtain rfl := Except.ok.inj h
  obtain rfl := parseCommitV2_returns _ _ hparsed
  obtain ⟨rfl, -⟩ := parseDecisionStatement_eq_ok_iff.mp hdecision'
  obtain ⟨rfl, -⟩ := parseProposalStatement_eq_ok_iff.mp hproposal'
  obtain rfl := parseEffect_returns _ _ heffect'
  obtain rfl := parseState_returns _ _ hbase'
  refine ⟨bind_eq_ok_iff.mpr ⟨_, hparsed, ?_⟩, rfl⟩
  refine bind_eq_ok_iff.mpr ⟨_, himp _ .decision _ hdecision, ?_⟩
  refine refuse_eq_ok_iff.mpr ⟨hisDecision, bind_eq_ok_iff.mpr ⟨_, hdecision', ?_⟩⟩
  refine refuse_eq_ok_iff.mpr ⟨hrejected, bind_eq_ok_iff.mpr ⟨_, himp _ .proposal _ hproposal, ?_⟩⟩
  refine refuse_eq_ok_iff.mpr ⟨hisProposal, bind_eq_ok_iff.mpr ⟨_, hproposal', ?_⟩⟩
  refine bind_eq_ok_iff.mpr ⟨_, himp _ .effect _ heffect, ?_⟩
  refine refuse_eq_ok_iff.mpr ⟨hisEffect, bind_eq_ok_iff.mpr ⟨_, heffect', ?_⟩⟩
  refine refuse_eq_ok_iff.mpr ⟨hresults, ?_⟩
  refine bind_eq_ok_iff.mpr ⟨_, himp _ .base _ hbase, bind_eq_ok_iff.mpr ⟨_, hbase', ?_⟩⟩
  refine bind_eq_ok_iff.mpr ⟨_, himp _ .result _ hresult, ?_⟩
  refine bind_eq_ok_iff.mpr ⟨inputs,
    mapM_of_imp hinputs fun input hinput => himp _ (.input hinput), ?_⟩
  refine bind_eq_ok_iff.mpr ⟨considered, mapM_of_imp hconsidered ?_, ?_⟩
  · intro requested hrequested _ hread
    obtain ⟨statement, hstatement, hread⟩ := bind_eq_ok_iff.mp hread
    obtain ⟨parsed, hparsed, hsubjects⟩ := bind_eq_ok_iff.mp hread
    obtain rfl := parseStatement_returns _ _ hparsed
    refine bind_eq_ok_iff.mpr ⟨_, himp _ (.considered hrequested) _ hstatement,
      bind_eq_ok_iff.mpr ⟨_, hparsed, verifyStatementSubjects_of_imp hsubjects ?_⟩⟩
    exact fun subject hsubject => himp _ (.subject hrequested hstatement hsubject)
  · refine bind_eq_ok_iff.mpr ⟨parents, mapM_of_imp hparents ?_,
      bind_eq_ok_iff.mpr ⟨(), hverify, rfl⟩⟩
    intro requested hrequested parent hread
    obtain ⟨object, hobject, hread⟩ := bind_eq_ok_iff.mp hread
    exact bind_eq_ok_iff.mpr ⟨object, himp _ (.parent hrequested) _ hobject, hread⟩

/-- The commit that is verified is returned. -/
theorem commit_of_verifyCommitIntegrity
    (h : verifyCommitIntegrity sha256 resolver commit = .ok verified) :
    verified.commit = commit :=
  (verifyCommitIntegrity_of_requests h fun _ _ _ hresolve => hresolve).2

/-- What one resolver resolves, another one resolves that returns the same bytes. -/
theorem resolveProtocolObject_of_imp {requested object : JsValue}
    (h : resolveProtocolObject sha256 resolver requested = .ok object)
    (himp : ∀ d bytes, parseObjectDescriptor requested (js "$") = .ok d →
      resolver d = some bytes → resolver' d = some bytes) :
    resolveProtocolObject sha256 resolver' requested = .ok object := by
  obtain ⟨d, bytes, hd, hget, hstored⟩ := resolveProtocolObject_eq_ok_iff.mp h
  exact resolveProtocolObject_eq_ok_iff.mpr ⟨d, bytes, hd, himp d bytes hd hget, hstored⟩

end T3x.Transition
