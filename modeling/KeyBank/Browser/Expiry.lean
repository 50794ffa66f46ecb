import KeyBank.Browser.Number
import KeyBank.Browser.Ui

/-!
# The expiry form

The radio buttons and the custom field of the create page, and the functions of
`static/create.js` that read and set them. The buttons' values are those of the template: whole
numbers of seconds, and `custom`.
-/

namespace KeyBank

def defaultTTLSeconds : ℕ := 24 * 60 * 60
def maxTTLSeconds : ℕ := 7 * 24 * 60 * 60

/-- A radio button of the group `expiryPreset`. -/
structure ExpiryPreset where
  /-- A number of seconds, or `custom`. -/
  value : Option ℕ
  checked : Bool
  disabled : Bool
  deriving DecidableEq

/-- The radio buttons, the input `#custom-ttl` and the field around it. -/
structure ExpiryForm where
  presets : List ExpiryPreset
  customValue : JSString
  customMax : JSString
  customDisabled : Bool
  customHidden : Bool
  deriving DecidableEq

namespace ExpiryForm

variable (form : ExpiryForm)

/-- The form as the template has it. -/
def initial : ExpiryForm where
  presets := [⟨some 3600, false, false⟩, ⟨some 86400, true, false⟩, ⟨some 604800, false, false⟩,
    ⟨none, false, false⟩]
  customValue := js "60"
  customMax := js "10080"
  customDisabled := false
  customHidden := true

/-- `form.reset()`: what was checked and written at first. -/
def reset : ExpiryForm :=
  { form with
    presets := List.zipWith (fun preset first => { preset with checked := first.checked })
      form.presets initial.presets
    customValue := initial.customValue }

/-- Check a radio button, which unchecks the others of its group. -/
def check (index : ℕ) : ExpiryForm :=
  { form with presets := form.presets.mapIdx fun i preset => { preset with checked := i = index } }

/-- `isCustomSelected`. -/
def isCustomSelected : Bool := form.presets.any fun preset => preset.checked && preset.value = none

/-- `syncCustomInput`. -/
def syncCustomInput : ExpiryForm :=
  { form with
    customDisabled := !form.isCustomSelected
    customHidden := !form.isCustomSelected }

/-- A preset longer than the server allows is disabled and not checked. -/
def allow (maxTTL : ℕ) (preset : ExpiryPreset) : ExpiryPreset :=
  match preset.value with
  | none => preset
  | some seconds =>
    { preset with disabled := maxTTL < seconds, checked := preset.checked && !(maxTTL < seconds) }

/-- `configureExpiryOptions`. -/
def configureExpiryOptions (maxTTL : ℕ) : ExpiryForm :=
  let maxMinutes := max 1 (maxTTL / 60)
  let form := { form with
    presets := form.presets.map (allow maxTTL)
    customMax := js (toString maxMinutes)
    customValue :=
      if (toNumber form.customValue).exceeds maxMinutes then js (toString maxMinutes)
      else form.customValue }
  if form.presets.any fun preset => preset.checked && !preset.disabled then form
  else
    let indices := List.range form.presets.length
    let isAvailable := fun i => form.presets[i]?.any fun preset : ExpiryPreset =>
      preset.value ≠ none && !preset.disabled
    let isCustom := fun i => form.presets[i]?.any fun preset : ExpiryPreset => preset.value = none
    match (indices.filter isAvailable).getLast?.or (indices.find? isCustom) with
    | some i => form.check i
    | none => form

/-- `selectedTTL`. The text of the custom field has to be a whole number of minutes. -/
def selectedTTL (env : Platform) (maxTTL : ℕ) : Except JSError ℕ :=
  match form.presets.find? fun preset => preset.checked with
  | none => .ok (min defaultTTLSeconds maxTTL)
  | some ⟨some ttl, _, _⟩ =>
    if maxTTL < ttl then
      .error (.error (js "That expiry exceeds this server's configured limit."))
    else .ok ttl
  | some ⟨none, _, _⟩ =>
    match (toNumber form.customValue).toInteger with
    | none => .error (.error (js "Enter a custom expiry in whole minutes (at least 1)."))
    | some minutes =>
      if minutes < 1 then
        .error (.error (js "Enter a custom expiry in whole minutes (at least 1)."))
      else if (maxTTL : ℤ) < minutes * 60 then
        .error (.error (js "Custom expiry exceeds this server's limit of " ++
          formatDuration env maxTTL ++ js "."))
      else .ok (minutes * 60).toNat

end ExpiryForm

end KeyBank
