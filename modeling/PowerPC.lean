import PowerPC.Config.Basic
import PowerPC.Config.Document
import PowerPC.Config.File
import PowerPC.Execute.Branch
import PowerPC.Execute.Instruction
import PowerPC.Execute.Integer
import PowerPC.Execute.State
import PowerPC.Execute.Transfer
import PowerPC.Fault
import PowerPC.Instruction.Basic
import PowerPC.Instruction.Decode
import PowerPC.Instruction.Form
import PowerPC.Instruction.Listing
import PowerPC.Instruction.Opcode
import PowerPC.Instruction.Operation
import PowerPC.Machine.Basic
import PowerPC.Machine.Run
import PowerPC.Memory.Basic
import PowerPC.Memory.Dump
import PowerPC.Memory.Layout
import PowerPC.Memory.Region
import PowerPC.Proofs.AccessLaws
import PowerPC.Proofs.AddressLaws
import PowerPC.Proofs.AlignmentLaws
import PowerPC.Proofs.ArithmeticLaws
import PowerPC.Proofs.AssemblyLaws
import PowerPC.Proofs.BranchLaws
import PowerPC.Proofs.BranchTextLaws
import PowerPC.Proofs.CallLaws
import PowerPC.Proofs.CarryLaws
import PowerPC.Proofs.CheckedDecodeLaws
import PowerPC.Proofs.CheckedExecuteLaws
import PowerPC.Proofs.CheckedMemoryLaws
import PowerPC.Proofs.CheckedRegisterLaws
import PowerPC.Proofs.CompareLaws
import PowerPC.Proofs.ConditionLaws
import PowerPC.Proofs.ConfigLaws
import PowerPC.Proofs.DecodeLaws
import PowerPC.Proofs.DocumentLaws
import PowerPC.Proofs.DumpLaws
import PowerPC.Proofs.EncodingLaws
import PowerPC.Proofs.ExecLaws
import PowerPC.Proofs.FaultLaws
import PowerPC.Proofs.FieldLaws
import PowerPC.Proofs.FormLaws
import PowerPC.Proofs.HostLaws
import PowerPC.Proofs.ImageLaws
import PowerPC.Proofs.LayoutLaws
import PowerPC.Proofs.LibraryLaws
import PowerPC.Proofs.ListingLaws
import PowerPC.Proofs.LoadStoreLaws
import PowerPC.Proofs.LoopLaws
import PowerPC.Proofs.MemoryLaws
import PowerPC.Proofs.MirrorLaws
import PowerPC.Proofs.MnemonicLaws
import PowerPC.Proofs.MultipleLaws
import PowerPC.Proofs.NumberLaws
import PowerPC.Proofs.NumeralLaws
import PowerPC.Proofs.OpcodeLaws
import PowerPC.Proofs.OperandLaws
import PowerPC.Proofs.PanicFreeLaws
import PowerPC.Proofs.PanicLaws
import PowerPC.Proofs.PlaceLaws
import PowerPC.Proofs.QuotientLaws
import PowerPC.Proofs.ReaderLaws
import PowerPC.Proofs.RearrangementLaws
import PowerPC.Proofs.RecordLaws
import PowerPC.Proofs.RequestLaws
import PowerPC.Proofs.ResultLaws
import PowerPC.Proofs.RotateLaws
import PowerPC.Proofs.RunLaws
import PowerPC.Proofs.SettingLaws
import PowerPC.Proofs.SetupLaws
import PowerPC.Proofs.ShiftLaws
import PowerPC.Proofs.StatementLaws
import PowerPC.Proofs.StepLaws
import PowerPC.Proofs.SumLaws
import PowerPC.Proofs.TransferLaws
import PowerPC.Proofs.WriteLaws
import PowerPC.Register.Condition
import PowerPC.Register.File
import PowerPC.Register.Index
import PowerPC.Register.Xer
import PowerPC.Storage
import PowerPC.Text.Numeral
import PowerPC.Toml.Document
import PowerPC.Toml.Library
import PowerPC.Toml.Quoted
import PowerPC.Toml.Reader
import PowerPC.Toml.Scalar
import PowerPC.Toml.Statement
import PowerPC.Toml.Value
import PowerPC.Word.Arithmetic
import PowerPC.Word.Basic
import PowerPC.Word.BigEndian
import PowerPC.Word.Shift
