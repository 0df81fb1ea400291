import Cartridge.CommandLine.Folder
import Cartridge.Main
import Cartridge.Proofs.Instruction.Layout
import Cartridge.Proofs.Instruction.Catalogue
import Cartridge.Proofs.Bytes
import Cartridge.Proofs.Text.Numeral
import Cartridge.Proofs.Script.Assembly
import Cartridge.Proofs.Variable.Bounds
import Cartridge.Proofs.Variable.Rules
import Cartridge.Proofs.Variable.Separation
import Cartridge.Proofs.Script.Listing
import Cartridge.Proofs.Script.Comments
import Cartridge.Proofs.Script.Relocation
import Cartridge.Proofs.Script.Outline
import Cartridge.Proofs.Script.Targets
import Cartridge.Proofs.Script.Execution
import Cartridge.Proofs.Script.Parsing
import Cartridge.Proofs.Script.Viability
import Cartridge.Proofs.Script.Meaning
import Cartridge.Proofs.Script.Nesting
import Cartridge.Proofs.Script.Attribution
import Cartridge.Proofs.Script.Starvation
import Cartridge.Proofs.Image.Allocation
import Cartridge.Proofs.Image.AllocatorRun
import Cartridge.Proofs.Image.Policy
import Cartridge.Proofs.Image.Placement
import Cartridge.Proofs.Image.Reading
import Cartridge.Proofs.Image.WriterRun
import Cartridge.Proofs.Image.RunImage
import Cartridge.Proofs.Image.Submissions
import Cartridge.Proofs.Image.AddressSpace
import Cartridge.Proofs.Image.Sharing
import Cartridge.Proofs.Image.Refusals
import Cartridge.Proofs.Resource.Resolution
import Cartridge.Proofs.Resource.Rules
import Cartridge.Proofs.Resource.EntryRecords
import Cartridge.Proofs.Resource.Ancestry
import Cartridge.Proofs.Resource.RoomContents
import Cartridge.Proofs.Resource.RoomAcceptance
import Cartridge.Proofs.Project.Acceptance
import Cartridge.Proofs.Project.Decoding
import Cartridge.Proofs.Project.References
import Cartridge.Proofs.Project.WellFormed
import Cartridge.Proofs.Project.EntryReferences
import Cartridge.Proofs.Project.ExportedNames
import Cartridge.Proofs.Script.Tiling
import Cartridge.Proofs.Resource.FieldTypes
import Cartridge.Proofs.CommandLine.InsertPath
import Cartridge.Proofs.Script.Names
