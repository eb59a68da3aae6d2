import Mailout.Preset.Registry

/-!
# Built-in presets

The providers that are known from the start, each with the spelling of common variables.
-/

namespace Mailout

/-- A table of spellings. -/
private def spellings (es : List (String × Text)) : Dictionary Text :=
  .ofList (es.map fun (k, v) => (k.toList, v))

/-- A text between two pairs of braces. -/
def double (s : String) : Text := ['{', '{'] ++ s.toList ++ ['}', '}']

/-- A text between three pairs of braces. -/
def triple (s : String) : Text := ['{', '{', '{'] ++ s.toList ++ ['}', '}', '}']

namespace TablePreset

/-- Mailchimp: merge fields in pipes, and a guaranteed way to unsubscribe. -/
def mailchimp : TablePreset where
  id := "mailchimp".toList
  name := "Mailchimp".toList
  knownTags := spellings [
    ("first_name", "*|FNAME|*".toList),
    ("last_name", "*|LNAME|*".toList),
    ("email", "*|EMAIL|*".toList),
    ("phone", "*|PHONE|*".toList),
    ("company", "*|LIST:COMPANY|*".toList),
    ("address", "*|LIST:ADDRESSLINE|*".toList),
    ("list_name", "*|LIST:NAME|*".toList),
    ("unsubscribe_url", "*|UNSUB|*".toList),
    ("update_profile_url", "*|UPDATE_PROFILE|*".toList),
    ("archive_url", "*|ARCHIVE|*".toList),
    ("forward_url", "*|FORWARD|*".toList),
    ("current_date", "*|DATE:d/m/y|*".toList),
    ("current_year", "*|CURRENT_YEAR|*".toList)]
  fallback := .pipeUpper
  steps := [.ensureUnsubscribe { tokens := ["*|UNSUB|*".toList, "*|UNSUBSCRIBE|*".toList] }]

/-- SendGrid: handlebars, with URLs inserted as they are. -/
def sendgrid : TablePreset where
  id := "sendgrid".toList
  name := "SendGrid".toList
  knownTags := spellings [
    ("first_name", double "first_name"),
    ("last_name", double "last_name"),
    ("email", double "email"),
    ("company", double "company"),
    ("phone", double "phone_number"),
    ("address", double "address_line_1"),
    ("city", double "city"),
    ("country", double "country"),
    ("unsubscribe_url", triple "unsubscribe"),
    ("update_profile_url", triple "unsubscribe_preferences"),
    ("current_year", double "current_year")]
  fallback := .handlebars
  steps := [.tripleBraceUrls]

/-- Brevo: attributes of a contact. -/
def brevo : TablePreset where
  id := "brevo".toList
  name := "Brevo".toList
  knownTags := spellings [
    ("first_name", double " contact.FIRSTNAME "),
    ("last_name", double " contact.LASTNAME "),
    ("email", double " contact.EMAIL "),
    ("phone", double " contact.SMS "),
    ("company", double " contact.COMPANY "),
    ("unsubscribe_url", double " unsubscribe "),
    ("update_profile_url", double " update_profile "),
    ("archive_url", double " mirror ")]
  fallback := .contactAttribute

/-- Postmark: handlebars with keys in camel case. -/
def postmark : TablePreset where
  id := "postmark".toList
  name := "Postmark".toList
  knownTags := spellings [
    ("first_name", double "firstName"),
    ("last_name", double "lastName"),
    ("email", double "email"),
    ("company", double "companyName"),
    ("phone", double "phoneNumber"),
    ("address", double "companyAddress"),
    ("unsubscribe_url", triple "pm:unsubscribe"),
    ("archive_url", triple "viewInBrowserUrl"),
    ("current_year", double "currentYear")]
  fallback := .handlebars

/-- Mailgun: handlebars with keys in snake case. -/
def mailgun : TablePreset where
  id := "mailgun".toList
  name := "Mailgun".toList
  knownTags := spellings [
    ("first_name", double "first_name"),
    ("last_name", double "last_name"),
    ("email", double "email"),
    ("company", double "company"),
    ("unsubscribe_url", triple "unsubscribe_url"),
    ("update_profile_url", triple "update_profile_url"),
    ("archive_url", triple "archive_url"),
    ("current_year", double "current_year")]
  fallback := .handlebars

/-- Plain handlebars for every variable. -/
def handlebars : TablePreset where
  id := "handlebars".toList
  name := "Handlebars".toList
  fallback := .handlebars

/-- All built-in presets. -/
def builtin : List TablePreset := [mailchimp, sendgrid, brevo, postmark, mailgun, handlebars]

end TablePreset

/-- The registry of the built-in presets. -/
def PresetRegistry.builtin : PresetRegistry :=
  .registerAll .empty (TablePreset.builtin.map TablePreset.toPreset)

end Mailout
