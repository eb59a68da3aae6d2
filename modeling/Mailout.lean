import Mailout.Export.Pipeline
import Mailout.Preset.Json
import Mailout.Preset.Yaml
import Mailout.Proofs.MergeTag.Occurrences
import Mailout.Proofs.MergeTag.Substitution
import Mailout.Proofs.MergeTag.Names
import Mailout.Proofs.Markup.Comment
import Mailout.Proofs.Markup.TagBody
import Mailout.Proofs.Markup.Reread
import Mailout.Proofs.Markup.Cleaning
import Mailout.Proofs.Markup.Rewritten
import Mailout.Proofs.Markup.Standing
import Mailout.Proofs.Markup.Structure
import Mailout.Proofs.Markup.Completeness
import Mailout.Proofs.Markup.Weight
import Mailout.Proofs.Markup.Idempotence
import Mailout.Proofs.Markup.Refusal
import Mailout.Proofs.Markup.Frame
import Mailout.Proofs.Markup.Agreement
import Mailout.Proofs.Markup.DirtyRun
import Mailout.Proofs.Markup.NormalForm
import Mailout.Proofs.PostProcess.UrlSpan
import Mailout.Proofs.PostProcess.LoneSpan
import Mailout.Proofs.PostProcess.Widening
import Mailout.Proofs.PostProcess.Footer
import Mailout.Proofs.PostProcess.Place
import Mailout.Proofs.PostProcess.EndTag
import Mailout.Proofs.PostProcess.Step
import Mailout.Proofs.PostProcess.FooterMarkup
import Mailout.Proofs.Preset.Template
import Mailout.Proofs.Preset.Sendgrid
import Mailout.Proofs.Preset.Unsubscribe
import Mailout.Proofs.Preset.Usable
import Mailout.Proofs.Export.Stages
import Mailout.Proofs.Export.Mailchimp
import Mailout.Proofs.Json.Reads
import Mailout.Proofs.Preset.RoundTrip
import Mailout.Proofs.Preset.Reexport
import Mailout.Proofs.Preset.BraceRun
import Mailout.Proofs.Preset.Registry
import Mailout.Proofs.Offset.Faultless
