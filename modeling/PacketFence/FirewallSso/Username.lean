import PacketFence.Foundations.Template

/-!
# The user name that a firewall is told

The placeholders of the configured format are replaced one after the other, in
the order of a Go map, by `ReplaceAllString`, which takes its argument for a
template. So a dollar in a user name or a realm is expanded, and what one
replacement puts in is searched by the next.
-/

namespace PacketFence.FirewallSso

open Foundations Replacement

inductive Placeholder where
  | strippedUsername
  | realm
  | username
  deriving DecidableEq

/-- `\$username`, `\$realm` and `\$pf_username` -/
def usernameFormatRegexps : Patterns UInt8 Placeholder where
  all := [.strippedUsername, .realm, .username]
  complete k := by cases k <;> decide
  head := ascii '$'
  body
    | .strippedUsername => asciiBytes "username"
    | .realm => asciiBytes "realm"
    | .username => asciiBytes "pf_username"
  headless k := by cases k <;> decide
  apart j k := by cases j <;> cases k <;> decide

structure UsernameSettings where
  usernameFormat : Bytes
  defaultRealm : Bytes

structure UserInfo where
  strippedUsername : Bytes
  realm : Bytes
  username : Bytes

def UserInfo.get (info : UserInfo) : Placeholder → Bytes
  | .strippedUsername => info.strippedUsername
  | .realm => info.realm
  | .username => info.username

def UserInfo.withRealm (info : UserInfo) (settings : UsernameSettings) : UserInfo :=
  if info.realm = [] then { info with realm := settings.defaultRealm } else info

section Format

variable (names : Template.NameRunes) (settings : UsernameSettings) (info : UserInfo)

/-- The only group of the expressions is the whole match. -/
def groupText (placeholder : Placeholder) (name : Bytes) : Bytes :=
  if Template.number? name = some 0 then usernameFormatRegexps.text placeholder else []

def expanded (info : UserInfo) (placeholder : Placeholder) : Bytes :=
  Template.expand names (groupText placeholder) (info.get placeholder)

/-- The user name and the information after the call. -/
def formatUsername (order : List Placeholder) : Bytes × UserInfo :=
  if settings.usernameFormat = [] then
    (info.username, info)
  else
    let info := info.withRealm settings
    (order.foldl
      (fun username placeholder =>
        usernameFormatRegexps.replaceAll placeholder (expanded names info placeholder) username)
      settings.usernameFormat, info)

/-- All placeholders replaced together by the values as they are. -/
def literalUsername : Bytes :=
  usernameFormatRegexps.replaceTogether (info.withRealm settings).get settings.usernameFormat

/-- No value that is put in makes a placeholder, unless that stands for itself. -/
def MakesNoPlaceholder : Prop :=
  usernameFormatRegexps.Settled (expanded names (info.withRealm settings))
    settings.usernameFormat

/-- The values of the placeholders of the format stand for themselves as templates. -/
def Literal : Prop :=
  ∀ placeholder, 0 < usernameFormatRegexps.occurrences placeholder settings.usernameFormat →
    expanded names (info.withRealm settings) placeholder =
      (info.withRealm settings).get placeholder

instance : Decidable (MakesNoPlaceholder names settings info) :=
  inferInstanceAs (Decidable (usernameFormatRegexps.Settled _ _))

end Format

def isMarked (byte : UInt8) : Bool :=
  byte = ascii '$' ∨ byte = ascii '0'

theorem countP_groupText_lt (placeholder : Placeholder) (name : Bytes) (nonempty : name ≠ []) :
    (groupText placeholder name).countP isMarked < name.countP isMarked + 1 := by
  unfold groupText
  split
  next number =>
    have zero : 0 < name.countP isMarked :=
      List.countP_pos_iff.mpr ⟨ascii '0', Template.zero_mem_of_number? number nonempty, rfl⟩
    have dollar : (usernameFormatRegexps.text placeholder).countP isMarked = 1 := by
      cases placeholder <;> rfl
    omega
  · exact Nat.succ_pos _

theorem shrinks_expanded (names : Template.NameRunes) (info : UserInfo)
    (placeholder : Placeholder) :
    Shrinks isMarked (expanded names info placeholder) (info.get placeholder) :=
  Template.shrinks_expand rfl (countP_groupText_lt placeholder) _

variable {names : Template.NameRunes} {settings : UsernameSettings} {info : UserInfo}

theorem formatUsername_eq (configured : settings.usernameFormat ≠ [])
    (clean : MakesNoPlaceholder names settings info) {order : List Placeholder}
    (visited : order.Perm usernameFormatRegexps.all) :
    (formatUsername names settings info order).1 =
      usernameFormatRegexps.replaceTogether (expanded names (info.withRealm settings))
        settings.usernameFormat := by
  have distinct : order.Nodup := visited.nodup_iff.mpr (by decide)
  have complete (placeholder : Placeholder) : placeholder ∈ order :=
    visited.mem_iff.mpr (usernameFormatRegexps.complete placeholder)
  rw [formatUsername, if_neg configured]
  exact Patterns.foldl_replaceAll_eq_replaceTogether clean distinct complete

theorem mark_mem_tokens_iff {placeholder : Placeholder} {text : Bytes} :
    .mark placeholder ∈ usernameFormatRegexps.tokens text ↔
      0 < usernameFormatRegexps.occurrences placeholder text := by
  rw [Patterns.occurrences_eq_count, List.count_pos_iff]

/-- Where no placeholder is made, the format is filled in literally in every order exactly
if the values of its placeholders stand for themselves. -/
theorem formatted_literally_iff (configured : settings.usernameFormat ≠ [])
    (clean : MakesNoPlaceholder names settings info) :
    (∀ order, order.Perm usernameFormatRegexps.all →
        (formatUsername names settings info order).1 = literalUsername settings info) ↔
      Literal names settings info := by
  have together : usernameFormatRegexps.replaceTogether
        (expanded names (info.withRealm settings)) settings.usernameFormat =
          literalUsername settings info ↔ Literal names settings info := by
    unfold Literal
    simp only [← mark_mem_tokens_iff]
    exact spell_eq_spell_iff (shrinks_expanded names _) _
  rw [← together]
  constructor
  · intro literally
    rw [← formatUsername_eq configured clean (.refl _)]
    exact literally _ (.refl _)
  · intro same order visited
    rw [formatUsername_eq configured clean visited, same]

def accountSettings : UsernameSettings where
  usernameFormat := asciiBytes "$username@$realm"
  defaultRealm := asciiBytes "example.org"

def plainUser : UserInfo where
  strippedUsername := asciiBytes "bob"
  realm := []
  username := asciiBytes "bob"

theorem plain_user_formatted_literally :
    (formatUsername .onlyAscii accountSettings plainUser [.username, .realm, .strippedUsername]).1 =
      asciiBytes "bob@example.org" := by
  have configured : accountSettings.usernameFormat ≠ [] := by decide
  have clean : MakesNoPlaceholder .onlyAscii accountSettings plainUser := by decide +kernel
  have literal : Literal .onlyAscii accountSettings plainUser := by
    intro placeholder _
    cases placeholder <;> rfl
  have isLiteral : literalUsername accountSettings plainUser = asciiBytes "bob@example.org" := by
    decide +kernel
  have visited : [.username, .realm, .strippedUsername].Perm usernameFormatRegexps.all := by decide
  rw [← isLiteral]
  exact (formatted_literally_iff configured clean).mpr literal _ visited

def dollarUser : UserInfo where
  strippedUsername := asciiBytes "a$b"
  realm := []
  username := asciiBytes "a$b"

/-- What follows the dollar of a user name is taken for the name of a group. -/
theorem dollar_in_username_expanded :
    (formatUsername .onlyAscii accountSettings dollarUser usernameFormatRegexps.all).1 =
        asciiBytes "a@example.org" ∧
      literalUsername accountSettings dollarUser = asciiBytes "a$b@example.org" ∧
        (formatUsername .onlyAscii accountSettings dollarUser usernameFormatRegexps.all).1 ≠
          literalUsername accountSettings dollarUser := by decide +kernel

end PacketFence.FirewallSso
