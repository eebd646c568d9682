import Mime.Base64.Content
import Mime.Entity.Output
import Mime.Entity.Parts
import Mime.Field.Lenient
import Mime.Proofs.Base64.Content
import Mime.Proofs.Entity.Attaching
import Mime.Proofs.Entity.Decoding
import Mime.Proofs.Entity.Delivery
import Mime.Proofs.Entity.Draining
import Mime.Proofs.Entity.FailingSink
import Mime.Proofs.Entity.Format
import Mime.Proofs.Entity.Opening
import Mime.Proofs.Entity.Reencode
import Mime.Proofs.Entity.Rerun
import Mime.Proofs.Entity.Runs
import Mime.Proofs.Field.Lenient
import Mime.Proofs.Field.Splitting
import Mime.Proofs.Headers
import Mime.Proofs.MediaType.Spelling
import Mime.Proofs.Multipart.Appending
import Mime.Proofs.Multipart.Closing
import Mime.Proofs.Multipart.Folding
import Mime.Proofs.Multipart.FormField
import Mime.Proofs.Multipart.PartCount
import Mime.Proofs.Multipart.Truncation
import Mime.Proofs.Parameters.Editing
import Mime.Proofs.Xml.Document
import Mime.Proofs.Multipart.Spool
import Mime.Proofs.Entity.Closing
