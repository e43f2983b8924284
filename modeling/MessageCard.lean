import MessageCard.Binary64.Digits
import MessageCard.Bitmap.Files
import MessageCard.Card.Loading
import MessageCard.Card.Scrolling
import MessageCard.Catalog.Local
import MessageCard.Json.Texts
import MessageCard.Layout.Document
import MessageCard.Main
import MessageCard.Preview
import MessageCard.Proofs.Card.Resizing
import MessageCard.Proofs.Catalog.Progress
import MessageCard.Proofs.Catalog.Paging
import MessageCard.Proofs.Catalog.Syncs
import MessageCard.Proofs.Layout.Containment
import MessageCard.Proofs.Layout.Planning
import MessageCard.Proofs.Placeholder.Binding
import MessageCard.Template.Report
import MessageCard.Proofs.Card.Deliveries
import MessageCard.Proofs.Card.Hidden
import MessageCard.Proofs.Card.History
import MessageCard.Proofs.Card.Failures
import MessageCard.Proofs.Card.Preorder
import MessageCard.Proofs.Card.Mirror
import MessageCard.Proofs.Template.Unread
import MessageCard.Proofs.Svg.Previews
import MessageCard.Proofs.Text.Fitting
import MessageCard.Proofs.Json.Spelling
import MessageCard.Proofs.Binary64.Shortest
import MessageCard.Proofs.Text.Decimal
import MessageCard.Proofs.Catalog.Serving
import MessageCard.Proofs.Catalog.Frames
import MessageCard.Proofs.Card.Memory
import MessageCard.Proofs.Binary64.Order
import MessageCard.Proofs.Text.Widening
import MessageCard.Proofs.Text.Stability
import MessageCard.Card.Delivery
import MessageCard.Placeholder.Editing
import MessageCard.Proofs.Card.Staleness
import MessageCard.Proofs.Placeholder.Editing
import MessageCard.Constraint.Register
import MessageCard.Proofs.Constraint.Register
import MessageCard.Proofs.Card.Records
import MessageCard.Proofs.Svg.Identifiers
import MessageCard.Proofs.Bitmap.Files
import MessageCard.Proofs.Bitmap.Loading
import MessageCard.Proofs.WorkQueue
import MessageCard.Proofs.Svg.Themes
import MessageCard.Proofs.Template.Reports
import MessageCard.Proofs.Json.Integers
import MessageCard.Proofs.Bitmap.Proportions
import MessageCard.Proofs.Bitmap.Names
import MessageCard.Proofs.Template.Ranges
import MessageCard.Proofs.Card.Extents
import MessageCard.Proofs.Card.Strips
