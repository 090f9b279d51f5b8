import T3x.Js.Shape
import T3x.Transition.Integrity

/-!
# Replaying an Effect

A definition is replayed by the driver that it refers to, from a State and the
objects that it declares as inputs. Neither the Base nor the Result that an
Effect claims enters the replay.
-/

namespace T3x.Transition

open Js

/-- What a replay throws: an error of the protocol or one of the driver's own. -/
inductive ReplayError (E : Type) where
  /-- An error of the protocol. -/
  | protocol (error : ProtocolError)
  /-- An error of the driver. -/
  | driver (error : E)

/-- A step of the protocol, its errors thrown on. -/
def byProtocol {E T : Type} (step : Except ProtocolError T) : Except (ReplayError E) T :=
  step.mapError .protocol

/-- A step of the protocol succeeds with what it gives. -/
@[simp] theorem byProtocol_eq_ok_iff {E T : Type} {step : Except ProtocolError T} {a : T} :
    (byProtocol step : Except (ReplayError E) T) = .ok a ↔ step = .ok a := by
  cases step <;> simp [byProtocol, Except.mapError]

/-- `ResolvedInputs`: the objects under their roles. -/
abbrev ResolvedInputs := Record JsValue

/-- `MutationDriver`. -/
structure MutationDriver (E : Type) where
  /-- The protocol. -/
  protocol : JsString
  /-- The version of the protocol. -/
  protocolVersion : JsString
  /-- The digest of the specification. -/
  specDigest : JsString
  /-- From a State, a definition and its inputs to a State. -/
  execute : JsValue → JsValue → ResolvedInputs → Except (ReplayError E) JsValue

/-- `mutationDriverKey(ref)`. -/
def mutationDriverKey (protocol protocolVersion specDigest : JsString) : JsString :=
  protocol ++ 0 :: (protocolVersion ++ 0 :: specDigest)

/-- The key of a driver. -/
def MutationDriver.key {E : Type} (driver : MutationDriver E) : JsString :=
  mutationDriverKey driver.protocol driver.protocolVersion driver.specDigest

/-- The key of a reference to a driver. -/
def referenceKey (reference : JsValue) : JsString :=
  mutationDriverKey (part reference "protocol").text (part reference "protocolVersion").text
    (part reference "specDigest").text

/-- `resolveMutationDriver(registry, ref)`. -/
def resolveMutationDriver {E : Type} (registry : Record (MutationDriver E)) (reference : JsValue) :
    Except ProtocolError (MutationDriver E) :=
  match Record.get registry (referenceKey reference) with
  | none => .error ⟨.unsupportedSemantics, js "Unsupported MutationDriver " ++
      (part reference "protocol").text ++ js "@" ++ (part reference "protocolVersion").text ++
      js " (" ++ (part reference "specDigest").text ++ js ")", none⟩
  | some driver =>
    if driver.key ≠ referenceKey reference then
      .error (chainInvalid "MutationDriver registry key does not match its semantics")
    else .ok driver

/-- `definitionOf(effect)`. -/
def definitionOf (effect : JsValue) : Except ProtocolError JsValue := do
  let parsed ← parseEffect effect
  return .obj [(js "driver", part parsed "driver"), (js "operations", part parsed "operations"),
    (js "inputs", part parsed "inputs")]

section

variable {E : Type} (sha256 : List UInt8 → JsString)

/-- The check of a declared input: it is resolved, to the object that is declared. -/
def checkInput (inputs : ResolvedInputs) (input : JsValue) : Except ProtocolError Unit := do
  let mismatch : ProtocolError := ⟨.integrityChainInvalid, js "Replay input " ++
    (part input "role").text ++ js " does not match its declared descriptor", none⟩
  match Record.get inputs (part input "role").text with
  | none => throw mismatch
  | some resolved =>
    let descriptor ← describeProtocolObject sha256 resolved
    if descriptorsEqual descriptor.value (part input "object") then return () else throw mismatch

/-- `replay(base, definition, inputs, drivers)`. -/
def replay (base definition : JsValue) (inputs : ResolvedInputs)
    (drivers : Record (MutationDriver E)) : Except (ReplayError E) JsValue := do
  match ["schema", "base", "result"].find? definition.hasMember with
  | some forbidden => throw (.protocol (chainInvalid
      ("EffectDefinition must not carry the forbidden " ++ forbidden ++ " field")))
  | none =>
    let parsedDefinition ← byProtocol (parseEffectDefinition definition)
    if (Record.keys inputs).length ≠ (parts parsedDefinition "inputs").length then
      throw (.protocol (chainInvalid "Replay inputs must exactly match declared Effect inputs"))
    byProtocol ((parts parsedDefinition "inputs").forM (checkInput sha256 inputs))
    let driver ← byProtocol (resolveMutationDriver drivers (part parsedDefinition "driver"))
    let parsedBase ← byProtocol (parseState base)
    let result ← driver.execute parsedBase parsedDefinition inputs
    byProtocol (parseState result)

/-- A definition without inputs is replayed by its driver. -/
theorem replay_eq_ok {base definition result : JsValue} {drivers : Record (MutationDriver E)}
    {driver : MutationDriver E}
    (hforbidden : ["schema", "base", "result"].find? definition.hasMember = none)
    (hdefinition : parseEffectDefinition definition = .ok definition)
    (hinputs : parts definition "inputs" = [])
    (hdriver : resolveMutationDriver drivers (part definition "driver") = .ok driver)
    (hbase : parseState base = .ok base)
    (hexecute : driver.execute base definition [] = .ok result)
    (hresult : parseState result = .ok result) :
    replay sha256 base definition [] drivers = .ok result := by
  unfold replay
  rw [hforbidden]
  refine bind_eq_ok_iff.mpr ⟨definition, byProtocol_eq_ok_iff.mpr hdefinition, ?_⟩
  refine refuse_eq_ok_iff.mpr ⟨by rw [hinputs]; exact not_not.mpr rfl, ?_⟩
  refine bind_eq_ok_iff.mpr ⟨(), byProtocol_eq_ok_iff.mpr (by rw [hinputs]; rfl), ?_⟩
  refine bind_eq_ok_iff.mpr ⟨driver, byProtocol_eq_ok_iff.mpr hdriver, ?_⟩
  refine bind_eq_ok_iff.mpr ⟨base, byProtocol_eq_ok_iff.mpr hbase, ?_⟩
  exact bind_eq_ok_iff.mpr ⟨result, hexecute, byProtocol_eq_ok_iff.mpr hresult⟩

end

end T3x.Transition
