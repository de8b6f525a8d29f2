import Essl.Compilation
import Essl.Tree.Outline
import Essl.Proofs.Typing.Reanalysis
import Essl.Proofs.Typing.FunctionOrders
import Essl.Proofs.Token.Lexical
import Essl.Proofs.Token.Preprocessed
import Essl.Proofs.Type.Text
import Essl.Proofs.Builtin.Evaluation
import Essl.Proofs.Value.Linear
import Essl.Proofs.Value.Construct
import Essl.Proofs.Tree.Nodes
import Essl.Proofs.Grammar.Regular
import Essl.Proofs.Typing.Logic
import Essl.Proofs.Typing.Invariant
import Essl.Proofs.Typing.Rules
import Essl.Proofs.Typing.OperationSound
import Essl.Proofs.Typing.SelectionSound
import Essl.Proofs.Typing.ConstructionSound
import Essl.Proofs.Typing.ExprSound
import Essl.Proofs.Typing.DeclaratorSound
import Essl.Proofs.Typing.ShaderSound
import Essl.Proofs.Typing.Guarantees
import Essl.Proofs.Directive.ConditionParsing
import Essl.Proofs.Macro.ObjectLike
import Essl.Proofs.Token.Partition
import Essl.Proofs.Directive.Selection
import Essl.Proofs.Macro.Supplied
import Essl.Proofs.Directive.Run
import Essl.Proofs.Token.Respelling
import Essl.Proofs.Typing.LexicalScope
import Essl.Proofs.Typing.Writing
import Essl.Proofs.Typing.StorageRules
import Essl.Proofs.Token.Pushback
import Essl.Proofs.Typing.ShaderObjects
import Essl.Proofs.Diagnostics
import Essl.Proofs.Grammar.Composition
import Essl.Proofs.Token.Moving
import Essl.Proofs.Tree.Extent
import Essl.Proofs.Typing.Folding
import Essl.Proofs.Grammar.Depth
import Essl.Proofs.Grammar.Resuming
import Essl.Proofs.Typing.FunctionProtocol
import Essl.Proofs.Typing.ConstructorAgreement
import Essl.Proofs.Typing.CompoundAssignment
import Essl.Proofs.Directive.Defined
import Essl.Proofs.Typing.Unresolved
import Essl.Proofs.Directive.Blanked
import Essl.Proofs.Typing.Swizzle
import Essl.Proofs.Directive.Definition
import Essl.Proofs.Macro.Arguments
import Essl.Proofs.Typing.ScopeFrames
import Essl.Proofs.Type.Signature
import Essl.Proofs.Token.IntegerConstants
import Essl.Proofs.Text.LineColumn
