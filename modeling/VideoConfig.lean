import VideoConfig.Main
import VideoConfig.Record.View
import VideoConfig.Proofs.Access.Resolution
import VideoConfig.Proofs.Access.Separation
import VideoConfig.Proofs.Access.SetGet
import VideoConfig.Proofs.Record.Headers
import VideoConfig.Proofs.Access.Negotiation
import VideoConfig.Proofs.Matching.Verdict
import VideoConfig.Proofs.Schema.Addressing
import VideoConfig.Proofs.Access.Elements
import VideoConfig.Proofs.Layout.Natural
import VideoConfig.Proofs.Schema.Spellings
import VideoConfig.Proofs.Manifest.Independence
import VideoConfig.Proofs.Settings.Precedence
import VideoConfig.Proofs.Settings.Merging
import VideoConfig.Proofs.Toml.Keys
import VideoConfig.Proofs.Toml.Text
import VideoConfig.Proofs.Matching.Stored
import VideoConfig.Proofs.Record.Views
import VideoConfig.Proofs.Matching.Monotone
import VideoConfig.Proofs.Layout.Faults
import VideoConfig.Proofs.Schema.Consistency
import VideoConfig.Proofs.Access.Abandoning
import VideoConfig.Proofs.Matching.Abandoning
import VideoConfig.Proofs.Path.Printing
import VideoConfig.Proofs.Floating.Rounding
import VideoConfig.Proofs.Numeral
import VideoConfig.Proofs.Numeral.Reading
import VideoConfig.Proofs.Coercion.Forms
import VideoConfig.Proofs.Coercion.Integers
import VideoConfig.Proofs.Floating.Decimal
import VideoConfig.Proofs.Coercion.Comparison
import VideoConfig.Proofs.Floating.Hexadecimal
import VideoConfig.Proofs.Coercion.Range
import VideoConfig.Proofs.Access.Fitting
import VideoConfig.Proofs.Coercion.Lists
import VideoConfig.Proofs.Coercion.Codes
import VideoConfig.Proofs.Access.Positional
import VideoConfig.Proofs.Access.WritingBack
import VideoConfig.Proofs.Access.ReadingBack
import VideoConfig.Proofs.Matching.Typed
import VideoConfig.Proofs.Selection
import VideoConfig.Proofs.Tag
