import JsonTemplate.Rule.Session
import JsonTemplate.Template
import JsonTemplate.Command.Run
import JsonTemplate.Main
import JsonTemplate.Proofs.Document.Decoding
import JsonTemplate.Proofs.Document.Origins
import JsonTemplate.Proofs.Evaluation.Equality
import JsonTemplate.Proofs.Evaluation.FieldOrder
import JsonTemplate.Proofs.Evaluation.Flattening
import JsonTemplate.Proofs.Evaluation.FreeNames
import JsonTemplate.Proofs.Evaluation.Links
import JsonTemplate.Proofs.Evaluation.Ordering
import JsonTemplate.Proofs.Expression.PathRule
import JsonTemplate.Proofs.Rule.Exclusion
import JsonTemplate.Proofs.Rule.Spans
import JsonTemplate.Proofs.Rule.Terminals
import JsonTemplate.Proofs.Template.Forms
import JsonTemplate.Proofs.Template.Integers
import JsonTemplate.Proofs.Template.Locations
import JsonTemplate.Proofs.Template.Mirror
import JsonTemplate.Proofs.Template.Mixtures
import JsonTemplate.Proofs.Template.Parentheses
import JsonTemplate.Proofs.Template.Respelling
import JsonTemplate.Proofs.Template.Wrapping
