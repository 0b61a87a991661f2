import VirtualFile.Text.Basic
import VirtualFile.Text.Utf8
import VirtualFile.Text.Wide
import VirtualFile.Text.SingleByte
import VirtualFile.Text.Charset
import VirtualFile.Text.Blank
import VirtualFile.Text.Digit
import VirtualFile.Text.Ranges
import VirtualFile.Text.Printable
import VirtualFile.Text.Quoted
import VirtualFile.Text.Casing
import VirtualFile.Text.LowerCase
import VirtualFile.Number.Binary64
import VirtualFile.Number.Shortest
import VirtualFile.Path.Style
import VirtualFile.Path.Drive
import VirtualFile.Path.Normal
import VirtualFile.Path.Name
import VirtualFile.Path.Join
import VirtualFile.Url.Percent
import VirtualFile.Url.FileUrl
import VirtualFile.Url.Address
import VirtualFile.Url.Authority
import VirtualFile.Url.Reference
import VirtualFile.Value.Basic
import VirtualFile.Fault
import VirtualFile.Value.Store
import VirtualFile.Value.Inspect
import VirtualFile.Value.Written
import VirtualFile.Place
import VirtualFile.Naming
import VirtualFile.Settings.EnvFile
import VirtualFile.Settings
import VirtualFile.Journal
import VirtualFile.World
import VirtualFile.Content
import VirtualFile.Message
import VirtualFile.Failure
import VirtualFile.Options
import VirtualFile.Access
import VirtualFile.Holding
import VirtualFile.Maker
import VirtualFile.Proofs.Text.Split
import VirtualFile.Proofs.Text.Utf8
import VirtualFile.Proofs.Text.Encoding
import VirtualFile.Proofs.Url.Percent
import VirtualFile.Proofs.Url.Encodings
import VirtualFile.Proofs.Maker.FromOptions
import VirtualFile.Proofs.Url.Separators
import VirtualFile.Proofs.Url.LocalFiles
import VirtualFile.Proofs.Naming.NonemptyName
import VirtualFile.Proofs.Naming.SameDirectory
import VirtualFile.Proofs.Maker.Refusals
import VirtualFile.Proofs.File.Copies
import VirtualFile.Proofs.File.Decoding
import VirtualFile.Proofs.File.Log
import VirtualFile.Proofs.File.Siblings
import VirtualFile.Proofs.File.Copying
import VirtualFile.Proofs.Path.Rejoin
import VirtualFile.Proofs.Naming.WriteBack
import VirtualFile.Proofs.Maker.Attributes
import VirtualFile.Proofs.Naming.Moving
import VirtualFile.Proofs.File.Journal
import VirtualFile.Proofs.Naming.Composing
import VirtualFile.Proofs.Path.Anchors
import VirtualFile.Proofs.Path.Folders
import VirtualFile.Proofs.Maker.Requested
import VirtualFile.Proofs.Path.Joining
import VirtualFile.Proofs.Path.Ascent
import VirtualFile.Proofs.File.Places
import VirtualFile.Proofs.File.RecordNames
import VirtualFile.Proofs.File.TakenForUrls
