import Custody.Main
import Custody.Audit.Background
import Custody.Context
import Custody.Data.Json.Reader
import Custody.Numeric.Number
import Custody.Redaction.Sanitize
import Custody.Proofs.Act
import Custody.Proofs.Storage.Contents
import Custody.Proofs.Storage.Places
import Custody.Proofs.Storage.Changes
import Custody.Proofs.Audit.Naming
import Custody.Proofs.Audit.Archive
import Custody.Proofs.Audit.Ledger
import Custody.Proofs.Audit.Writing
import Custody.Proofs.Audit.Lifecycle
import Custody.Proofs.Audit.Packing
import Custody.Proofs.Audit.Filling
import Custody.Proofs.Audit.Runs
import Custody.Proofs.Audit.Rotation
import Custody.Proofs.Audit.SteadyState
import Custody.Proofs.Audit.Opening
import Custody.Proofs.Context
import Custody.Proofs.Codec.Base64
import Custody.Proofs.Text.Splitting
import Custody.Proofs.Vault
import Custody.Proofs.Secrets.Precedence
import Custody.Proofs.Secrets.Sessions
import Custody.Proofs.Cli.Encryption
import Custody.Proofs.Audit.Reporting
import Custody.Proofs.Audit.Twins
import Custody.Proofs.Shell.Reading
import Custody.Proofs.Docker.Sending
import Custody.Proofs.Docker.Login
import Custody.Proofs.Docker.Confinement
import Custody.Proofs.Docker.Tasks
import Custody.Proofs.Docker.RoundTrip
import Custody.Proofs.Secrets.Accountability
import Custody.Proofs.Audit.Lifespan
import Custody.Proofs.Data.Fields
import Custody.Proofs.Properties.Writing
import Custody.Proofs.Config.Section
import Custody.Proofs.Config.Environment
import Custody.Proofs.Data.Yaml
import Custody.Proofs.Config.Load
import Custody.Proofs.Config.Precedence
import Custody.Proofs.Text.Case
import Custody.Proofs.Audit.Lines
import Custody.Proofs.Redaction.NamedValues
import Custody.Proofs.Docker.Redacted
import Custody.Proofs.Redaction.Lookalikes
import Custody.Proofs.Redaction.Options
import Custody.Proofs.Redaction.Passwords
import Custody.Proofs.Numeric.Nearest
import Custody.Proofs.Text.Order
import Custody.Proofs.Text.Digits
import Custody.Proofs.Calendar.Order
import Custody.Proofs.Calendar.Dates
import Custody.Proofs.Calendar.Instants
import Custody.Proofs.Audit.FileTimes
import Custody.Proofs.Audit.Listing
import Custody.Proofs.Audit.Retention
import Custody.Proofs.Audit.Routine
import Custody.Proofs.Audit.Moves
import Custody.Proofs.Audit.Evidence
import Custody.Proofs.Audit.Numbering
import Custody.Proofs.Audit.Chronology
import Custody.Proofs.Properties.Lines
import Custody.Proofs.Properties.Layout
import Custody.Proofs.Properties.Escapes
import Custody.Proofs.Schedule.Passes
import Custody.Proofs.Schedule.Pace
import Custody.Proofs.Schedule.Timetable
import Custody.Proofs.Properties.Merging
import Custody.Proofs.Properties.Pairing
import Custody.Proofs.Vault.Failures
import Custody.Proofs.Docker.Names
import Custody.Proofs.Redaction.Sanitize
