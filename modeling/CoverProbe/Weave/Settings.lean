import CoverProbe.Decimal.Layout
import CoverProbe.Weave.Body

set_option relaxedAutoImplicit false
set_option autoImplicit false

/-!
# Settings of weaving

The choices that a user makes about weaving. Every one has a default.

## Main definitions

* `CoverProbe.Settings` — the choices.
* `CoverProbe.Settings.validate` — refuses densities that are no probabilities.
* `CoverProbe.Settings.weaver` — the weaver that they describe.
-/

namespace CoverProbe

/-- The choices that a user makes about weaving. -/
structure Settings where
  candidates : CandidatePolicy := .distinctLines
  sampling : Sampling := .density ⟨0x3FE0000000000000⟩ ⟨0x3FF0000000000000⟩
  /-- Does the entry of every unit get a probe? -/
  probeEntry : Bool := true
  /-- Are the tokens of the top-level unit marked? -/
  markTopLevel : Bool := true
  topLevel : TopLevelPolicy := .full
  /-- How line tables are written. -/
  sign : SignConvention := .signed
deriving DecidableEq, Repr

/-- Why settings are refused. -/
inductive SettingsFault
  /-- The field holds no probability. -/
  | probability (field : String) (value : Binary64)
  /-- The least density is greater than the greatest. -/
  | emptyRange (low high : Binary64)
deriving DecidableEq, Repr

/-- Numbers in messages are written with the fewest digits that read back and without an
exponent. -/
def SettingsFault.float : FloatLayout where
  tie := .up
  positional := none
  wholePoint := false
  plusExponent := false

/-- The text of a settings fault. -/
def SettingsFault.message : SettingsFault → String
  | probability field value => s!"{field} = {float.render value} is not a probability in [0, 1]"
  | emptyRange low high =>
    s!"density range is empty: min {float.render low} > max {float.render high}"

namespace Settings

/-- Refuses a number outside the unit interval. -/
def checkProbability (field : String) (value : Binary64) : Except SettingsFault Unit :=
  if .zero false ≤ value ∧ value ≤ .one then .ok ()
  else .error (.probability field value)

/-- Refuses densities that are no probabilities, or are out of order. -/
def checkSampling : Sampling → Except SettingsFault Unit
  | .all => .ok ()
  | .bernoulli keep => checkProbability "keep" keep
  | .density low high => do
    checkProbability "min" low
    checkProbability "max" high
    if high < low then throw (.emptyRange low high)

/-- Refuses settings whose densities are no probabilities. -/
def validate (s : Settings) : Except SettingsFault Unit :=
  checkSampling s.sampling

/-- The weaver that settings describe. -/
def weaver {ρ : Type} [Drawing ρ] (s : Settings) (isa : InstructionSet) : Weaver ρ where
  isa := isa
  sign := s.sign
  policy := s.candidates
  topLevel := s.topLevel
  sampler := s.sampling.sampler s.probeEntry
  tokens := Token.hashed s.markTopLevel

end Settings

end CoverProbe
