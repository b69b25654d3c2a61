import Glint.Main
import Glint.Vulkan
import Glint.Proofs.WrittenShader
import Glint.Proofs.ShaderOrder
import Glint.Proofs.PushCover
import Glint.Proofs.StripTwice
import Glint.Proofs.Division
import Glint.Proofs.UnclosedComment
import Glint.Proofs.Listing
import Glint.Proofs.OtherStage
import Glint.Proofs.RecordLaws
import Glint.Proofs.SoleShader
import Glint.Proofs.PushStages
import Glint.Proofs.StoppedBuild
import Glint.Proofs.InlineStruct
import Glint.Proofs.InputSlots
import Glint.Proofs.ConstantBytes
import Glint.Proofs.MergeHistory
import Glint.Proofs.QualifierGrammar
import Glint.Proofs.LeadingWords
import Glint.Proofs.DescriptorKinds
import Glint.Proofs.StageSettings
import Glint.Proofs.AddedQualifiers
import Glint.Proofs.QualifiedMembers
import Glint.Proofs.SetSize
import Glint.Proofs.LineSeam
import Glint.Proofs.ChangedShader
import Glint.Proofs.NearestFloat
