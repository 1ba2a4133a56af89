import Classfile.Text.Ranges
import Classfile.Text.Extending
import Classfile.Text.Unassigned
import Classfile.Text.Visible
import Classfile.Text.Inspect
import Classfile.Text.Modified
import Classfile.Bytes
import Classfile.Descriptor.Basic
import Classfile.Descriptor.Parser
import Classfile.AccessFlags
import Classfile.Constant
import Classfile.Label
import Classfile.Instruction.Basic
import Classfile.Instruction.Encoding
import Classfile.Frame.Basic
import Classfile.AttributeKind
import Classfile.Error
import Classfile.Event
import Classfile.Action
import Classfile.Emission
import Classfile.Registry
import Classfile.Pool
import Classfile.Layout.Attribute
import Classfile.Layout.ClassFile
import Classfile.Frame.Effect
import Classfile.StackMap
import Classfile.Body.Basic
import Classfile.Body.Lowering
import Classfile.InnerClasses
import Classfile.Attribute
import Classfile.Class.Member
import Classfile.Class.Basic
import Classfile.Class.Lowering
import Classfile.Proofs.Descriptor
import Classfile.Proofs.Action
import Classfile.Proofs.Repetition
import Classfile.Proofs.Run
import Classfile.Proofs.Errors
import Classfile.Proofs.Pool.Growth
import Classfile.Proofs.Pool.WellFormed
import Classfile.Proofs.Pool.Interning
import Classfile.Proofs.Pool.Reachable
import Classfile.Proofs.Body.Assembly
import Classfile.Proofs.Body.Soundness
import Classfile.Proofs.Body.Table
import Classfile.Proofs.Body.Consistency
import Classfile.Proofs.Class.Repetition
import Classfile.Proofs.Class.Call
import Classfile.Proofs.Class.Generation
import Classfile.Proofs.Layout.Decodability
import Classfile.Proofs.StackMap.Compression
import Classfile.Proofs.Class.Uniqueness
import Classfile.Proofs.Pool.Room
import Classfile.Proofs.StackMap.Failure
import Classfile.Proofs.Body.Refusal
import Classfile.Proofs.Body.Agreement
import Classfile.Proofs.Body.Maxima
import Classfile.Proofs.Frame.Operand
import Classfile.Proofs.Pool.Capacity
import Classfile.Proofs.Class.Independence
import Classfile.Proofs.Body.Depth
import Classfile.Proofs.Layout.Writing
import Classfile.Proofs.Instruction.Forms
