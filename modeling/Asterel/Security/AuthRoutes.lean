import Asterel.Library.Text

/-!
# Providers and their auth routes

A provider name is brought into a canonical form, and the target of a credential is named by
the canonical provider with a route behind it. Both forms are their own canonical forms.
-/

namespace Asterel.Auth

open Library Library.Text Option

abbrev Chars := List Char

section Providers

def toAsciiLowercase (text : Chars) : Chars := text.map Char.toLower

def eqIgnoreAsciiCase (first second : Chars) : Bool :=
  toAsciiLowercase first = toAsciiLowercase second

def startsWith (front text : Chars) : Bool := front.isPrefixOf text

/-- Known alias → canonical provider ID mapping. -/
def providerAliases : List (Chars × Chars) :=
  [("openai-codex".toList, "openai".toList), ("google".toList, "gemini".toList),
    ("google-gemini".toList, "gemini".toList),
    ("vertex-gemini".toList, "gemini-vertex".toList),
    ("kimi".toList, "moonshot".toList),
    ("grok".toList, "xai".toList),
    ("z.ai".toList, "zai".toList),
    ("zhipu".toList, "glm".toList),
    ("baidu".toList, "qianfan".toList),
    ("vercel-ai".toList, "vercel".toList),
    ("cloudflare-ai".toList, "cloudflare".toList),
    ("together-ai".toList, "together".toList),
    ("fireworks-ai".toList, "fireworks".toList),
    ("github-copilot".toList, "copilot".toList),
    ("aws-bedrock".toList, "bedrock".toList),
    ("opencode-zen".toList, "opencode".toList)]

def normalizeProviderAlias (name : Chars) : Chars :=
  let trimmed := trim name
  if startsWith "gemini-vertex:".toList (toAsciiLowercase trimmed) ||
      startsWith "vertex-gemini:".toList (toAsciiLowercase trimmed) then
    "gemini-vertex".toList
  else
    ((providerAliases.find? fun entry => eqIgnoreAsciiCase trimmed entry.1).map Prod.snd).getD trimmed

/-- The canonical provider name used for persisted auth and config records. -/
def canonicalProviderName (name : Chars) : Chars :=
  let normalized := toAsciiLowercase (trim name)
  if startsWith "custom:".toList normalized then "custom".toList
  else if startsWith "anthropic-custom:".toList normalized then "anthropic-custom".toList
  else if startsWith "gemini-vertex:".toList normalized ||
      startsWith "vertex-gemini:".toList normalized then
    "gemini-vertex".toList
  else normalizeProviderAlias normalized

/-- The named auth route for an external provider selector. -/
def requestedAuthRoute (name : Chars) : Option Chars :=
  if eqIgnoreAsciiCase (trim name) "openai-codex".toList then some "codex".toList else none

end Providers

section Routes

/-- A text in its trimmed and lowered form, unless it is blank. -/
def normalizedText (text : Chars) : Option Chars :=
  let trimmed := toAsciiLowercase (trim text)
  if trimmed = [] then none else some trimmed

/-- Canonicalize an auth route for persisted auth profiles. -/
def canonicalAuthRoute (provider : Chars) (authRoute authScheme oauthSource : Option Chars) :
    Option Chars :=
  match authRoute.bind normalizedText with
  | some route => some route
  | none =>
    let normalizedScheme := authScheme.bind normalizedText
    let normalizedOauthSource := oauthSource.bind normalizedText
    if normalizedScheme = some "oauth".toList then
      normalizedOauthSource.or (some "oauth".toList)
    else if normalizedScheme = some "api_key".toList ∨ normalizedScheme = some "api-key".toList then
      some "api".toList
    else (requestedAuthRoute provider).or normalizedOauthSource

/-- The store key for a provider and auth-route target. -/
def authTargetKey (provider : Chars) (authRoute : Option Chars) : Chars :=
  match authRoute.bind normalizedText with
  | some route => canonicalProviderName provider ++ '@' :: route
  | none => canonicalProviderName provider

def isValidProfileId (profileId : Chars) : Bool :=
  profileId.all fun c => c.isAlphanum || c == '-' || c == '_' || c == '.'

end Routes

section Canonical

variable {text name : Chars}

/-- A text without white space around it and without upper-case letters. -/
def Plain (text : Chars) : Prop := toAsciiLowercase (trim text) = text

instance (text : Chars) : Decidable (Plain text) := inferInstanceAs (Decidable (_ = _))

theorem toAsciiLowercase_toAsciiLowercase (text : Chars) :
    toAsciiLowercase (toAsciiLowercase text) = toAsciiLowercase text := by
  have same : Char.toLower ∘ Char.toLower = Char.toLower := funext toLower_toLower
  rw [toAsciiLowercase, toAsciiLowercase, List.map_map, same]

theorem trim_toAsciiLowercase (text : Chars) :
    trim (toAsciiLowercase text) = toAsciiLowercase (trim text) :=
  trim_map isWhitespace_toLower text

theorem plain_lowered (text : Chars) : Plain (toAsciiLowercase (trim text)) := by
  rw [Plain, trim_toAsciiLowercase, trim_trim, toAsciiLowercase_toAsciiLowercase]

theorem Plain.lower (plain : Plain text) : toAsciiLowercase text = text := by
  rw [← plain, toAsciiLowercase_toAsciiLowercase]

theorem Plain.trim (plain : Plain text) : Text.trim text = text := by
  rw [← plain, trim_toAsciiLowercase, trim_trim]

theorem normalizedText_eq_some (normalized : normalizedText text = some name) :
    Plain name ∧ name ≠ [] := by
  obtain ⟨some, same⟩ := ite_none_left_eq_some.mp normalized
  cases same
  exact ⟨plain_lowered text, some⟩

theorem normalizedText_of_plain (plain : Plain text) (some : text ≠ []) :
    normalizedText text = Option.some text := by
  rw [normalizedText, plain, if_neg some]

/-- What is normalized once is normalized. -/
theorem bind_normalizedText (text : Option Chars) :
    (text.bind normalizedText).bind normalizedText = text.bind normalizedText := by
  cases normalized : text.bind normalizedText with
  | none => rfl
  | some name =>
    obtain ⟨raw, rfl, normalized⟩ := bind_eq_some_iff.mp normalized
    obtain ⟨plain, some⟩ := normalizedText_eq_some normalized
    exact normalizedText_of_plain plain some

/-- Neither an alias nor one of the selectors with an argument. -/
def Settled (name : Chars) : Prop := Plain name ∧ canonicalProviderName name = name

instance (name : Chars) : Decidable (Settled name) := inferInstanceAs (Decidable (_ ∧ _))

theorem settled_targets : ∀ entry ∈ providerAliases, Settled entry.2 := by
  have checked : providerAliases.all (fun entry => decide (Settled entry.2)) = true := by
    decide +kernel
  intro entry member
  exact of_decide_eq_true (List.all_eq_true.mp checked entry member)

theorem settled_custom : Settled "custom".toList := by
  decide +kernel

theorem settled_anthropicCustom : Settled "anthropic-custom".toList := by
  decide +kernel

theorem settled_geminiVertex : Settled "gemini-vertex".toList := by
  decide +kernel

/-- A canonical name is its own canonical name. -/
theorem settled_canonicalProviderName (name : Chars) : Settled (canonicalProviderName name) := by
  have plain := plain_lowered name
  generalize whole : canonicalProviderName name = canonical
  unfold canonicalProviderName at whole
  dsimp only at whole
  split at whole
  · exact whole ▸ settled_custom
  · rename_i notCustom
    split at whole
    · exact whole ▸ settled_anthropicCustom
    · rename_i notAnthropic
      split at whole
      · exact whole ▸ settled_geminiVertex
      · rename_i notGemini
        unfold normalizeProviderAlias at whole
        simp only [plain.trim, plain.lower] at whole
        rw [if_neg notGemini] at whole
        cases found : providerAliases.find? fun entry =>
            eqIgnoreAsciiCase (toAsciiLowercase (Text.trim name)) entry.1 with
        | some entry =>
          simp only [found, map_some, getD_some] at whole
          exact whole ▸ settled_targets entry (List.mem_of_find?_eq_some found)
        | none =>
          simp only [found, map_none, getD_none] at whole
          rw [← whole]
          refine ⟨plain, ?_⟩
          unfold canonicalProviderName normalizeProviderAlias
          simp only [plain.trim, plain.lower, found, map_none, getD_none]
          rw [if_neg notCustom, if_neg notAnthropic, if_neg notGemini, if_neg notGemini]

@[simp] theorem canonicalProviderName_canonical (name : Chars) :
    canonicalProviderName (canonicalProviderName name) = canonicalProviderName name :=
  (settled_canonicalProviderName name).2

/-- The provider that an alias with a route stands for has no route of its own. -/
theorem requestedAuthRoute_canonical (name : Chars) :
    requestedAuthRoute (canonicalProviderName name) = none := by
  obtain ⟨plain, settled⟩ := settled_canonicalProviderName name
  generalize canonicalProviderName name = canonical at plain settled
  rw [requestedAuthRoute, if_neg]
  intro same
  rw [eqIgnoreAsciiCase, decide_eq_true_eq, plain] at same
  subst same
  exact absurd settled (by decide +kernel)

end Canonical

end Asterel.Auth
