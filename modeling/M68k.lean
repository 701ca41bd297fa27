import M68k.Main
import M68k.Proofs.Catalogue
import M68k.Proofs.Labels
import M68k.Proofs.Partition
import M68k.Proofs.ReadBack
import M68k.Proofs.Targets
import M68k.Proofs.Styles
import M68k.Proofs.Handlers
import M68k.Proofs.Rejections
import M68k.Proofs.Locality
import M68k.Proofs.Sweeping
import M68k.Proofs.Concatenation
import M68k.Proofs.Wording
import M68k.Proofs.Streaming
import M68k.Proofs.Relocation
import M68k.Proofs.Renaming
import M68k.Proofs.RegisterLists
import M68k.Proofs.Legibility
import M68k.Proofs.Faithfulness
import M68k.Proofs.Logging
import M68k.Proofs.Runs
import M68k.Proofs.Operations
import M68k.Proofs.Origins
import M68k.Proofs.Outcomes
import M68k.Proofs.Truncation
import M68k.Proofs.MaskedRegisters
import M68k.Proofs.Searching
import M68k.Proofs.DataRows
import M68k.Proofs.MoveEncoding
import M68k.Proofs.OperandWords
import M68k.Proofs.Alignment
import M68k.Proofs.Entries
import M68k.Proofs.Substitution
import M68k.Proofs.Termination
import M68k.Proofs.ByteOrder
